import Console16.Cli.Command

/-!
# Console16.Main

The command line on a real system.
-/

namespace Console16

/-- Whether an access failed for the reason with a number; some report it with its sign changed. -/
def hasReason (code number : UInt32) : Bool :=
  code = number || code = -number

/-- The reason behind a failed access to a file. -/
def fileError (e : IO.Error) : FileError :=
  match e with
  | .noFileOrDirectory .. => .notFound
  | .permissionDenied _ code _ =>
    if hasReason code 13 then .permissionDenied else .other (toString e)
  | .inappropriateType _ code _ => if hasReason code 21 then .isADirectory else .notADirectory
  | .invalidArgument _ code _ =>
    if hasReason code 36 then .nameTooLong else .other (toString e)
  | .resourceExhausted _ code _ =>
    if hasReason code 28 then .noSpace
    else if hasReason code 12 then .outOfMemory
    else .other (toString e)
  | _ => .other (toString e)

/-- An access to a file, with the reason if it fails. -/
def accessFile {α : Type} (action : IO α) : IO (Except FileError α) := do
  try
    return .ok (← action)
  catch e =>
    return .error (fileError e)

/-- Eight random bytes as a number. -/
def randomSeed : IO UInt64 := do
  let bytes ← IO.getRandomBytes 8
  return bytes.data.foldl (fun n b => n * 256 + b.toUInt64) 0

instance : Host IO where
  readFile path := accessFile do return (← IO.FS.readBinFile path).data.toList
  writeFile path bytes := accessFile do
    IO.FS.withFile path .write fun handle => do
      handle.write ⟨bytes.toArray⟩
      handle.flush
  pathExists path := do return ← ((← IO.currentDir) / path).pathExists
  isDir path := do return ← ((← IO.currentDir) / path).isDir
  entries path := accessFile do
    let all ← ((← IO.currentDir) / path).readDir
    return all.toList.map fun entry => entry.fileName
  print line := IO.println line
  report headlines := headlines.forM fun lines =>
    IO.eprintln ("  × " ++ "\n  │ ".intercalate lines)
  envVar name := IO.getEnv name
  millis := do return UInt64.ofNat (← IO.monoMsNow)
  sleep ms := IO.sleep ms.toUInt32
  entropy := randomSeed

end Console16

def main (words : List String) : IO UInt32 :=
  Console16.commandLine words
