import Console16.Cli.Wildcard
import Console16.Text.Split

/-!
# Console16.Cli.Pattern

Patterns of paths as they are written: `?` is any character, `*` any run of them, `[ab]` and
`[a-z]` one of a class, `[!ab]` one outside it, and `**` as a whole component any number of
directories.

* `PathPattern.parse`: a pattern is checked as a whole and then once more by component.
-/

namespace Console16

inductive PatternFault where
  /-- Three stars or more. -/
  | stars
  /-- Two stars that are not a whole component. -/
  | recursion
  /-- A bracket that opens no class. -/
  | range
  deriving DecidableEq, Repr

/-- A fault and the character at which it shows. -/
structure PatternError where
  position : Nat
  fault : PatternFault
  deriving DecidableEq, Repr

def PatternFault.text : PatternFault → String
  | .stars => "wildcards are either regular `*` or recursive `**`"
  | .recursion => "recursive wildcards must form a single path component"
  | .range => "invalid range pattern"

def PatternError.message (e : PatternError) : String :=
  "Pattern syntax error near position " ++ toString e.position ++ ": " ++ e.fault.text

namespace Wildcard

/-- A class after its bracket: its elements, the text after it and its length with both brackets. -/
def parseClass : List Char → Option (Wildcard × List Char × Nat)
  | '!' :: a :: rest =>
    if rest.contains ']' then
      let inside := rest.takeWhile (· != ']')
      some (.except (ranges (a :: inside)), rest.drop (inside.length + 1), inside.length + 4)
    else none
  | a :: rest =>
    if a != '!' && rest.contains ']' then
      let inside := rest.takeWhile (· != ']')
      some (.within (ranges (a :: inside)), rest.drop (inside.length + 1), inside.length + 3)
    else none
  | [] => none

/-- The elements of a pattern from character `at_` on; `start` says whether a component starts
there. Every element takes at least one character, so `fuel` for each character is enough. -/
def parseFrom : Nat → Nat → Bool → List Char → Except PatternError (List Wildcard)
  | _, _, _, [] => .ok []
  | 0, _, _, _ :: _ => .ok []
  | fuel + 1, at_, start, c :: cs =>
    match c with
    | '?' => (parseFrom fuel (at_ + 1) false cs).map (.anyChar :: ·)
    | '*' =>
      let rest := cs.dropWhile (· == '*')
      match cs.length - rest.length with
      | 0 => (parseFrom fuel (at_ + 1) false rest).map (.anyRun :: ·)
      | 1 =>
        if start then
          match rest with
          | [] => .ok [.anyDirs]
          | '/' :: rest => (parseFrom fuel (at_ + 3) true rest).map (.anyDirs :: ·)
          | _ => .error ⟨at_ + 2, .recursion⟩
        else .error ⟨at_ - 1, .recursion⟩
      | _ => .error ⟨at_ + 2, .stars⟩
    | '[' =>
      match parseClass cs with
      | some (w, rest, len) => (parseFrom fuel (at_ + len) false rest).map (w :: ·)
      | none => .error ⟨at_, .range⟩
    | c => (parseFrom fuel (at_ + 1) (c == '/') cs).map (.literal c :: ·)

def parse (cs : List Char) : Except PatternError (List Wildcard) :=
  parseFrom cs.length 0 true cs

/-- The text of elements that are all characters. -/
def literalText? : List Wildcard → Option (List Char)
  | [] => some []
  | .literal c :: ws => (literalText? ws).map (c :: ·)
  | _ => none

end Wildcard

inductive PatternPart where
  /-- Any number of directories. -/
  | deep
  /-- A name without wildcards. -/
  | name (text : String)
  | wild (elements : List Wildcard)
  deriving DecidableEq, Repr

namespace PatternPart

def ofElements (ws : List Wildcard) : PatternPart :=
  match Wildcard.literalText? ws with
  | some cs => .name (String.ofList cs)
  | none => if ws = [.anyDirs] then .deep else .wild ws

/-- Whether a component matches the name of an entry. -/
def accepts : PatternPart → String → Bool
  | .deep, _ => true
  | .name text, entry => entry == text
  | .wild ws, entry => Wildcard.matchList ws entry.toList

/-- Whether a component may match `.` and `..`: it has wildcards and starts with a dot. -/
def startsWithDot : PatternPart → Bool
  | .wild (.literal '.' :: _) => true
  | _ => false

end PatternPart

structure PathPattern where
  /-- The directory the first component is looked up in. -/
  root : String
  parts : List PatternPart
  /-- The pattern ends in a slash: only directories match. -/
  dirsOnly : Bool
  deriving DecidableEq, Repr

namespace PathPattern

/-- The components of a pattern below its root; a slash at the end adds none. -/
def pieces (cs : List Char) : List (List Char) :=
  let all := Text.splitOn '/' cs
  if all.getLast? = some [] && 1 < all.length then all.dropLast else all

def parse (text : String) : Except PatternError PathPattern :=
  let cs := text.toList
  let absolute := cs.head? = some '/'
  match Wildcard.parse cs with
  | .error e => .error e
  | .ok _ =>
    match (pieces (if absolute then cs.drop 1 else cs)).mapM Wildcard.parse with
    | .error e => .error e
    | .ok parts =>
      .ok ⟨if absolute then "/" else ".", parts.map .ofElements, cs.getLast? = some '/'⟩

end PathPattern
end Console16
