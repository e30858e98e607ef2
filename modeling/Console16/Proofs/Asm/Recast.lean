import Console16.Asm.Grammar

/-!
# Console16.Proofs.Asm.Recast

A line told in other words. A recast replaces the names of labels, the words a message quotes, line
numbers and spans; opcodes, registers and literals stay. What a line says is decided by the classes
of its words alone, so a line that is told in other words says the same thing in those other words,
its error included.

* `Recast.operands?_tokens`: operands, or the error in them.
* `Recast.ofTokens_tokens`: what a whole line says.
-/

namespace Console16

structure Recast where
  name : String → String
  word : String → String
  line : Nat → Nat
  span : Span → Span
  /-- A stretch from one token to another is replaced by the stretch between what replaces them. -/
  through_span : ∀ first last, (span first).through (span last) = span (first.through last)

namespace Recast

variable (r : Recast)

/-! ## Tokens, statements and errors -/

def kind : TokenKind → TokenKind
  | .declaration name => .declaration (r.name name)
  | .reference name => .reference (r.name name)
  | other => other

def token (t : Token) : Token :=
  ⟨r.kind t.kind, r.word t.text, r.span t.span⟩

def ref (ref : LabelRef) : LabelRef :=
  ⟨r.name ref.name, r.line ref.line, r.span ref.span⟩

def target : Target → Target
  | .value v => .value v
  | .label ref => .label (r.ref ref)

def stmt {T U : Type} (g : T → U) : Stmt T → Stmt U
  | .instr line op operands => .instr (r.line line) op (operands.map g)
  | .data line bytes => .data (r.line line) bytes

def item : Item → Item
  | .stmt s => .stmt (r.stmt r.target s)
  | .label name span => .label (r.name name) (r.span span)

def problem : Problem → Problem
  | .invalidSyntax op => .invalidSyntax op
  | .labelNotAlone label => .labelNotAlone (r.name label)
  | .duplicateLabel label => .duplicateLabel (r.name label)
  | .unresolvedLabel label => .unresolvedLabel (r.name label)
  | .dataTooLarge bits => .dataTooLarge bits
  | .misplacedRegister register => .misplacedRegister (r.word register)
  | .expectedData token => .expectedData (r.word token)
  | .unknownToken token => .unknownToken (r.word token)

def error : AsmError → AsmError
  | .located p line span => .located (r.problem p) (r.line line) (r.span span)
  | .outputTooLarge byteLen => .outputTooLarge byteLen

def result {α β : Type} (f : α → β) : Except AsmError α → Except AsmError β
  | .ok a => .ok (f a)
  | .error e => .error (r.error e)

@[simp] theorem byteLen_stmt {T U : Type} (g : T → U) (s : Stmt T) :
    (r.stmt g s).byteLen = s.byteLen := by
  cases s <;> rfl

/-! ## Words -/

@[simp] theorem register?_token (t : Token) : (r.token t).register? = t.register? := by
  obtain ⟨kind, text, span⟩ := t
  cases kind <;> rfl

@[simp] theorem literal?_token (t : Token) : (r.token t).literal? = t.literal? := by
  obtain ⟨kind, text, span⟩ := t
  cases kind <;> rfl

theorem target?_token (line : Nat) (t : Token) :
    (r.token t).target? (r.line line) = (t.target? line).map (r.result r.target) := by
  obtain ⟨kind, text, span⟩ := t
  cases kind with
  | literal bytes =>
    match bytes with
    | [] => rfl
    | [_] => rfl
    | [_, _] => rfl
    | _ :: _ :: _ :: _ => rfl
  | _ => rfl

theorem byte?_token (line : Nat) (t : Token) :
    (r.token t).byte? (r.line line) = (t.byte? line).map (r.result id) := by
  obtain ⟨kind, text, span⟩ := t
  cases kind with
  | literal bytes =>
    match bytes with
    | [] => rfl
    | [_] => rfl
    | _ :: _ :: _ => rfl
  | _ => rfl

theorem spanOf_tokens (first : Token) (rest : List Token) :
    spanOf (r.token first) (rest.map r.token) = r.span (spanOf first rest) := by
  have hlast : ((rest.map r.token).getLast?).getD (r.token first) =
      r.token ((rest.getLast?).getD first) := by
    rw [List.getLast?_map]
    cases rest.getLast? <;> rfl
  rw [spanOf, hlast]
  exact r.through_span ..

/-! ## Lines -/

theorem operands?_tokens (line : Nat) (f : Format) (toks : List Token) :
    operands? (r.line line) f (toks.map r.token) =
      (operands? line f toks).map (r.result fun o => o.map r.target) := by
  cases f with
  | bare =>
    rcases toks with _ | ⟨a, rest⟩
    · rfl
    · rfl
  | regReg =>
    rcases toks with _ | ⟨a, _ | ⟨b, _ | ⟨c, rest⟩⟩⟩
    · rfl
    · rfl
    · simp only [List.map_cons, List.map_nil, operands?, register?_token]
      cases a.register? with
      | none => rfl
      | some r1 => cases b.register? <;> rfl
    · rfl
  | reg =>
    rcases toks with _ | ⟨a, _ | ⟨b, rest⟩⟩
    · rfl
    · simp only [List.map_cons, List.map_nil, operands?, register?_token]
      cases a.register? <;> rfl
    · rfl
  | regImm =>
    rcases toks with _ | ⟨a, _ | ⟨b, _ | ⟨c, rest⟩⟩⟩
    · rfl
    · rfl
    · simp only [List.map_cons, List.map_nil, operands?, register?_token, target?_token]
      cases a.register? with
      | none => rfl
      | some r => rcases b.target? line with _ | (e | imm) <;> rfl
    · rfl
  | addr =>
    rcases toks with _ | ⟨a, _ | ⟨b, rest⟩⟩
    · rfl
    · simp only [List.map_cons, List.map_nil, operands?, target?_token]
      rcases a.target? line with _ | (e | imm) <;> rfl
    · rfl
  | byte =>
    rcases toks with _ | ⟨a, _ | ⟨b, rest⟩⟩
    · rfl
    · simp only [List.map_cons, List.map_nil, operands?, byte?_token]
      rcases a.byte? line with _ | (e | imm) <;> rfl
    · rfl

theorem instruction_tokens (line : Nat) (op : Opcode) (first : Token) (rest : List Token) :
    instruction (r.line line) op (r.token first) (rest.map r.token) =
      r.result (r.stmt r.target) (instruction line op first rest) := by
  unfold instruction
  rw [operands?_tokens, spanOf_tokens]
  rcases operands? line op.format rest with _ | (e | o) <;> rfl

theorem dataRow_tokens (line : Nat) (toks : List Token) :
    dataRow (r.line line) (toks.map r.token) =
      r.result (r.stmt r.target) (dataRow line toks) := by
  have hfind : (fun t : Token => t.literal?.isNone) ∘ r.token = fun t => t.literal?.isNone := by
    funext t
    simp
  unfold dataRow
  rw [List.find?_map, hfind, List.flatMap_map]
  simp only [literal?_token]
  cases toks.find? fun t => t.literal?.isNone <;> rfl

theorem ofTokens_tokens (line : Nat) (toks : List Token) :
    Item.ofTokens (r.line line) (toks.map r.token) =
      r.result (Option.map r.item) (Item.ofTokens line toks) := by
  cases toks with
  | nil => rfl
  | cons first rest =>
    simp only [List.map_cons, Item.ofTokens]
    have hkind : (r.token first).kind = r.kind first.kind := rfl
    rw [hkind]
    cases first.kind with
    | opcode op =>
      simp only [kind, instruction_tokens]
      cases instruction line op first rest <;> rfl
    | literal bytes =>
      simp only [kind, ← List.map_cons, dataRow_tokens]
      cases dataRow line (first :: rest) <;> rfl
    | declaration name => cases rest <;> rfl
    | _ => rfl

end Recast
end Console16
