import Console16.Asm.Grammar
import Console16.Proofs.Source.WordClass
import Mathlib.Data.List.Forall2

/-!
# Console16.Proofs.Asm.Reading

What the words of a line say, as a relation. `Says` has one rule for each kind of line and no order
among them: classes of words, counts of digits and numbers stand in its rules, not tokens, packed
bytes and positions.

* `Item.ofTokens_cases`: what a line of tokens can be taken for.
* `Item.says_of_ofTokens`: what a line of tokens is taken for is what its words say.
* `Item.ofTokens_of_says`: words that say something are taken for it.
-/

namespace Console16

open Text

/-- A 16-bit operand as its word gives it, wherever the word stands. -/
inductive Written where
  | number (v : UInt16)
  | name (label : String)
  deriving DecidableEq

/-- The value of an operand, given the values of the labels. -/
def Written.eval (label : String → UInt16) : Written → UInt16
  | .number v => v
  | .name n => label n

def Target.written : Target → Written
  | .value v => .number v
  | .label ref => .name ref.name

/-- A word gives bytes: a literal gives those of its digits. -/
def SpellsBytes (w : List Char) (bytes : List UInt8) : Prop :=
  ∃ ds, IsLiteral w ds ∧ bytes = Hex.bytesOf ds

/-- A word gives a 16-bit operand: a literal of at most four digits, or the name of a label. -/
inductive Spells : List Char → Written → Prop where
  | number {w ds : List Char} :
      IsLiteral w ds → ds.length ≤ 4 → Spells w (.number (UInt16.ofNat (Hex.number ds)))
  | name {label : String} : IsLabelName label.toList → Spells label.toList (.name label)

/-- Words give operands in a format. -/
inductive SpellsOperands : List (List Char) → {f : Format} → Operands Written f → Prop where
  | bare : SpellsOperands [] .bare
  | regReg {a b : List Char} {r1 r2 : Register} :
      NamesRegister a r1 → NamesRegister b r2 → SpellsOperands [a, b] (.regReg r1 r2)
  | reg {a : List Char} {r : Register} : NamesRegister a r → SpellsOperands [a] (.reg r)
  | regImm {a b : List Char} {r : Register} {imm : Written} :
      NamesRegister a r → Spells b imm → SpellsOperands [a, b] (.regImm r imm)
  | addr {a : List Char} {imm : Written} : Spells a imm → SpellsOperands [a] (.addr imm)
  | noByte : SpellsOperands [] (.byte 0)
  | byte {a ds : List Char} :
      IsLiteral a ds → ds.length ≤ 2 → SpellsOperands [a] (.byte (UInt8.ofNat (Hex.number ds)))

/-- What a line says. -/
inductive Reading where
  | blank
  | label (name : String)
  | data (bytes : List UInt8)
  | instr (op : Opcode) (operands : Operands Written op.format)

/-- The words of a line say something. -/
inductive Says : List (List Char) → Reading → Prop where
  | blank : Says [] .blank
  | label {name : String} : IsIdentifier name.toList → Says [name.toList ++ [':']] (.label name)
  | data {ws : List (List Char)} {rows : List (List UInt8)} :
      ws ≠ [] → List.Forall₂ SpellsBytes ws rows → Says ws (.data rows.flatten)
  | instr {op : Opcode} {ws : List (List Char)} {operands : Operands Written op.format} :
      SpellsOperands ws operands → Says (op.mnemonic.toList :: ws) (.instr op operands)

def Stmt.reading : Stmt Target → Reading
  | .instr _ op operands => .instr op (operands.map Target.written)
  | .data _ bytes => .data bytes

def Item.reading : Option Item → Reading
  | none => .blank
  | some (.stmt s) => s.reading
  | some (.label name _) => .label name

/-! ## Words -/

theorem spellsBytes_iff {w : List Char} {bytes : List UInt8} :
    SpellsBytes w bytes ↔ TokenKind.ofWord w = .literal bytes := by
  rw [TokenKind.ofWord_eq_iff]
  simp only [SpellsBytes, TokenKind.Describes, Hex.pack_eq_bytesOf]

theorem number_of_bytesOf {ds : List Char} {bytes : List UInt8} (h : bytes = Hex.bytesOf ds) :
    bytes.length = (ds.length + 1) / 2 ∧ Hex.bigEndian bytes = Hex.number ds := by
  subst h
  exact ⟨Hex.length_bytesOf ds, Hex.bigEndian_bytesOf ds⟩

namespace Token

def chars (t : Token) : List Char :=
  t.text.toList

/-- The class of the token is that of its text. -/
def Honest (t : Token) : Prop :=
  t.kind = .ofWord t.chars

variable {t : Token} {line : Nat}

theorem honest_ofWord (w : Word) : (ofWord w).Honest := by
  simp [Honest, ofWord, chars]

theorem register?_eq_some_iff (ht : t.Honest) {r : Register} :
    t.register? = some r ↔ NamesRegister t.chars r := by
  have h : t.register? = some r ↔ t.kind = .register r := by
    unfold register?
    split <;> simp_all
  rw [h, ht, TokenKind.ofWord_eq_iff]
  rfl

theorem literal?_eq_some_iff (ht : t.Honest) {bytes : List UInt8} :
    t.literal? = some bytes ↔ SpellsBytes t.chars bytes := by
  have h : t.literal? = some bytes ↔ t.kind = .literal bytes := by
    unfold literal?
    split <;> simp_all
  rw [h, ht, spellsBytes_iff]

theorem spellsBytes_of_kind (ht : t.Honest) {bytes : List UInt8} (h : t.kind = .literal bytes) :
    SpellsBytes t.chars bytes :=
  spellsBytes_iff.2 (ht.symm.trans h)

theorem spells_of_target? (ht : t.Honest) {x : Target} (h : t.target? line = some (.ok x)) :
    Spells t.chars x.written := by
  unfold target? at h
  split at h
  · rename_i lo hk
    cases h
    obtain ⟨ds, hds, hbytes⟩ := spellsBytes_of_kind ht hk
    obtain ⟨hlen, hval⟩ := number_of_bytesOf hbytes
    have hv : wordOf 0 lo = UInt16.ofNat (Hex.number ds) := by
      rw [← hval, Hex.bigEndian_one, wordOf]
      simp
    simp only [List.length_singleton] at hlen
    simp only [Target.written, hv]
    exact .number hds (by omega)
  · rename_i hi lo hk
    cases h
    obtain ⟨ds, hds, hbytes⟩ := spellsBytes_of_kind ht hk
    obtain ⟨hlen, hval⟩ := number_of_bytesOf hbytes
    have hv : wordOf hi lo = UInt16.ofNat (Hex.number ds) := by
      rw [← hval, Hex.bigEndian_two, wordOf]
    simp only [List.length_cons, List.length_nil] at hlen
    simp only [Target.written, hv]
    exact .number hds (by omega)
  · cases h
  · rename_i name hk
    cases h
    have hd := TokenKind.ofWord_eq_iff.1 (ht.symm.trans hk)
    rw [hd.2]
    exact .name (hd.2 ▸ hd.1)
  · cases h

theorem target?_of_spells (line : Nat) (ht : t.Honest) {x : Written} (h : Spells t.chars x) :
    ∃ y, t.target? line = some (.ok y) ∧ y.written = x := by
  generalize hw : t.chars = w at h
  cases h with
  | @number w ds hds hlen =>
    have hk : t.kind = .literal (Hex.bytesOf ds) := by
      rw [ht, hw, TokenKind.ofWord_literal hds, Hex.pack_eq_bytesOf]
    generalize hb : Hex.bytesOf ds = bytes at hk
    obtain ⟨hl, hval⟩ := number_of_bytesOf hb.symm
    have hpos := List.length_pos_iff.2 hds.2.1
    match bytes with
    | [] => simp at hl; omega
    | [lo] =>
      refine ⟨.value (wordOf 0 lo), by simp only [target?, hk], ?_⟩
      rw [Target.written, ← hval, Hex.bigEndian_one, wordOf]
      simp
    | [hi, lo] =>
      refine ⟨.value (wordOf hi lo), by simp only [target?, hk], ?_⟩
      rw [Target.written, ← hval, Hex.bigEndian_two, wordOf]
    | _ :: _ :: _ :: _ => simp at hl; omega
  | @name label hname =>
    have hk : t.kind = .reference label := by
      rw [ht, hw, TokenKind.ofWord_reference hname, String.ofList_toList]
    exact ⟨.label ⟨label, line, t.span⟩, by simp only [target?, hk], rfl⟩

theorem byte?_eq_ok_iff (ht : t.Honest) {b : UInt8} :
    t.byte? line = some (.ok b) ↔
      ∃ ds, IsLiteral t.chars ds ∧ ds.length ≤ 2 ∧ b = UInt8.ofNat (Hex.number ds) := by
  have hkind : t.byte? line = some (.ok b) ↔ t.kind = .literal [b] := by
    unfold byte?
    split <;> simp_all
  rw [hkind, ht, ← spellsBytes_iff]
  constructor
  · rintro ⟨ds, hds, hbytes⟩
    obtain ⟨hlen, hval⟩ := number_of_bytesOf hbytes
    refine ⟨ds, hds, ?_, ?_⟩
    · simp only [List.length_singleton] at hlen
      omega
    · rw [← hval, Hex.bigEndian_one, UInt8.ofNat_toNat]
  · rintro ⟨ds, hds, hlen, rfl⟩
    have hpos := List.length_pos_iff.2 hds.2.1
    obtain ⟨b, hb⟩ : ∃ b, Hex.bytesOf ds = [b] := by
      rw [← List.length_eq_one_iff, Hex.length_bytesOf]
      omega
    refine ⟨ds, hds, ?_⟩
    rw [← Hex.bigEndian_bytesOf, hb, Hex.bigEndian_one, UInt8.ofNat_toNat]

end Token

/-! ## Operands -/

theorem map_map_eq_ok_iff {α β : Type} {g : α → β} {x : Option (Except AsmError α)} {b : β} :
    (x.map fun e => e.map g) = some (.ok b) ↔ ∃ a, x = some (.ok a) ∧ g a = b := by
  rcases x with _ | (e | a) <;> simp [Except.map]

section
variable {f : Format} {toks : List Token}

theorem spellsOperands_of_operands? {line : Nat} (ht : ∀ t ∈ toks, t.Honest) {o : Operands Target f}
    (h : operands? line f toks = some (.ok o)) :
    SpellsOperands (toks.map Token.chars) (o.map Target.written) := by
  unfold operands? at h
  split at h
  · cases h
    exact .bare
  · rename_i a b
    split at h
    · rename_i r1 r2 h1 h2
      cases h
      exact .regReg ((Token.register?_eq_some_iff (ht a (by simp))).1 h1)
        ((Token.register?_eq_some_iff (ht b (by simp))).1 h2)
    · cases h
  · rename_i a
    obtain ⟨r, hr, ho⟩ := Option.map_eq_some_iff.1 h
    cases ho
    exact .reg ((Token.register?_eq_some_iff (ht a (by simp))).1 hr)
  · rename_i a b
    split at h
    · rename_i r hr
      obtain ⟨imm, himm, rfl⟩ := map_map_eq_ok_iff.1 h
      exact .regImm ((Token.register?_eq_some_iff (ht a (by simp))).1 hr)
        (Token.spells_of_target? (ht b (by simp)) himm)
    · cases h
  · rename_i a
    obtain ⟨imm, himm, rfl⟩ := map_map_eq_ok_iff.1 h
    exact .addr (Token.spells_of_target? (ht a (by simp)) himm)
  · cases h
    exact .noByte
  · rename_i a
    obtain ⟨imm, himm, rfl⟩ := map_map_eq_ok_iff.1 h
    obtain ⟨ds, hds, hlen, rfl⟩ := (Token.byte?_eq_ok_iff (ht a (by simp))).1 himm
    exact .byte hds hlen
  · cases h

theorem operands?_of_spells (line : Nat) {ws : List (List Char)} {o : Operands Written f}
    (h : SpellsOperands ws o) (hw : toks.map Token.chars = ws) (ht : ∀ t ∈ toks, t.Honest) :
    ∃ x, operands? line f toks = some (.ok x) ∧ x.map Target.written = o := by
  cases h with
  | bare =>
    obtain rfl := List.map_eq_nil_iff.1 hw
    exact ⟨.bare, rfl, rfl⟩
  | @regReg _ _ r1 r2 h1 h2 =>
    obtain ⟨a, rest, rfl, rfl, hrest⟩ := List.map_eq_cons_iff.1 hw
    obtain ⟨b, last, rfl, rfl, hlast⟩ := List.map_eq_cons_iff.1 hrest
    obtain rfl := List.map_eq_nil_iff.1 hlast
    have h1 := (Token.register?_eq_some_iff (ht a (by simp))).2 h1
    have h2 := (Token.register?_eq_some_iff (ht b (by simp))).2 h2
    exact ⟨.regReg r1 r2, by simp only [operands?, h1, h2], rfl⟩
  | @reg _ r hr =>
    obtain ⟨a, rest, rfl, rfl, hrest⟩ := List.map_eq_cons_iff.1 hw
    obtain rfl := List.map_eq_nil_iff.1 hrest
    have hr := (Token.register?_eq_some_iff (ht a (by simp))).2 hr
    exact ⟨.reg r, by simp only [operands?, hr, Option.map_some], rfl⟩
  | @regImm _ _ r imm hr himm =>
    obtain ⟨a, rest, rfl, rfl, hrest⟩ := List.map_eq_cons_iff.1 hw
    obtain ⟨b, last, rfl, rfl, hlast⟩ := List.map_eq_cons_iff.1 hrest
    obtain rfl := List.map_eq_nil_iff.1 hlast
    have hr := (Token.register?_eq_some_iff (ht a (by simp))).2 hr
    obtain ⟨x, hx, rfl⟩ := Token.target?_of_spells line (ht b (by simp)) himm
    exact ⟨.regImm r x, by simp only [operands?, hr, hx, Option.map_some, Except.map], rfl⟩
  | @addr _ imm himm =>
    obtain ⟨a, rest, rfl, rfl, hrest⟩ := List.map_eq_cons_iff.1 hw
    obtain rfl := List.map_eq_nil_iff.1 hrest
    obtain ⟨x, hx, rfl⟩ := Token.target?_of_spells line (ht a (by simp)) himm
    exact ⟨.addr x, by simp only [operands?, hx, Option.map_some, Except.map], rfl⟩
  | noByte =>
    obtain rfl := List.map_eq_nil_iff.1 hw
    exact ⟨.byte 0, rfl, rfl⟩
  | @byte _ ds hds hlen =>
    obtain ⟨a, rest, rfl, rfl, hrest⟩ := List.map_eq_cons_iff.1 hw
    obtain rfl := List.map_eq_nil_iff.1 hrest
    have hb : a.byte? line = some (.ok (UInt8.ofNat (Hex.number ds))) :=
      (Token.byte?_eq_ok_iff (ht a (by simp))).2 ⟨ds, hds, hlen, rfl⟩
    exact ⟨.byte (UInt8.ofNat (Hex.number ds)),
      by simp only [operands?, hb, Option.map_some, Except.map], rfl⟩

end

/-! ## Lines -/

section
variable {toks : List Token}

theorem forall₂_spellsBytes (ht : ∀ t ∈ toks, t.Honest) (hl : ∀ t ∈ toks, t.literal?.isSome) :
    List.Forall₂ SpellsBytes (toks.map Token.chars) (toks.map fun t => t.literal?.getD []) := by
  induction toks with
  | nil => exact .nil
  | cons t toks ih =>
    obtain ⟨bytes, hb⟩ := Option.isSome_iff_exists.1 (hl t List.mem_cons_self)
    refine .cons ?_ (ih (fun u hu => ht u (List.mem_cons_of_mem t hu))
      fun u hu => hl u (List.mem_cons_of_mem t hu))
    simp only [hb, Option.getD_some]
    exact (Token.literal?_eq_some_iff (ht t List.mem_cons_self)).1 hb

theorem literals_of_forall₂ {ws : List (List Char)} {rows : List (List UInt8)}
    (h : List.Forall₂ SpellsBytes ws rows) (hw : toks.map Token.chars = ws)
    (ht : ∀ t ∈ toks, t.Honest) : toks.map Token.literal? = rows.map some := by
  induction h generalizing toks with
  | nil =>
    obtain rfl := List.map_eq_nil_iff.1 hw
    rfl
  | cons hb _ ih =>
    obtain ⟨t, rest, rfl, rfl, hrest⟩ := List.map_eq_cons_iff.1 hw
    have hb := (Token.literal?_eq_some_iff (ht t List.mem_cons_self)).2 hb
    rw [List.map_cons, List.map_cons, hb, ih hrest fun u hu => ht u (List.mem_cons_of_mem t hu)]

namespace Item

/-- What a line of tokens can be taken for, and when. -/
theorem ofTokens_cases {line : Nat} {it : Option Item} (h : ofTokens line toks = .ok it) :
    (toks = [] ∧ it = none) ∨
    (∃ op first rest operands, toks = first :: rest ∧ first.kind = .opcode op ∧
      operands? line op.format rest = some (.ok operands) ∧
      it = some (.stmt (.instr line op operands))) ∨
    (toks ≠ [] ∧ (∀ t ∈ toks, t.literal?.isSome) ∧
      it = some (.stmt (.data line (toks.flatMap fun t => t.literal?.getD [])))) ∨
    (∃ name t, toks = [t] ∧ t.kind = .declaration name ∧ it = some (.label name t.span)) := by
  cases toks with
  | nil =>
    cases h
    exact .inl ⟨rfl, rfl⟩
  | cons first rest =>
    simp only [ofTokens] at h
    split at h
    · rename_i op hk
      obtain ⟨s, hs, rfl⟩ := Except.map_eq_ok_iff.1 h
      unfold instruction at hs
      split at hs
      · rename_i o ho
        cases hs
        exact .inr (.inl ⟨op, first, rest, o, rfl, hk, ho, rfl⟩)
      · cases hs
      · cases hs
    · obtain ⟨s, hs, rfl⟩ := Except.map_eq_ok_iff.1 h
      obtain ⟨hl, rfl⟩ := dataRow_eq_ok_iff.1 hs
      exact .inr (.inr (.inl ⟨List.cons_ne_nil first rest, hl, rfl⟩))
    · rename_i name hk
      split at h
      · rename_i hnil
        cases h
        obtain rfl := List.isEmpty_iff.1 hnil
        exact .inr (.inr (.inr ⟨name, first, rfl, hk, rfl⟩))
      · cases h
    · cases h
    · cases h
    · cases h

theorem says_of_ofTokens {line : Nat} (ht : ∀ t ∈ toks, t.Honest) {it : Option Item}
    (h : ofTokens line toks = .ok it) : Says (toks.map Token.chars) (reading it) := by
  obtain ⟨rfl, rfl⟩ | ⟨op, first, rest, o, rfl, hk, ho, rfl⟩ | ⟨hne, hl, rfl⟩ |
    ⟨name, t, rfl, hk, rfl⟩ := ofTokens_cases h
  · exact .blank
  · have hf := ht first List.mem_cons_self
    have hop : first.chars = op.mnemonic.toList := TokenKind.ofWord_eq_iff.1 (hf.symm.trans hk)
    rw [List.map_cons, hop]
    exact .instr (spellsOperands_of_operands? (fun t h => ht t (List.mem_cons_of_mem first h)) ho)
  · rw [List.flatMap_def]
    exact .data (by simpa using hne) (forall₂_spellsBytes ht hl)
  · have hf := ht t List.mem_cons_self
    obtain ⟨hid, hw⟩ := TokenKind.ofWord_eq_iff.1 (hf.symm.trans hk)
    rw [List.map_cons, List.map_nil, hw]
    exact .label hid

theorem ofTokens_of_says (line : Nat) {ws : List (List Char)} {r : Reading} (h : Says ws r)
    (hw : toks.map Token.chars = ws) (ht : ∀ t ∈ toks, t.Honest) :
    ∃ it, ofTokens line toks = .ok it ∧ reading it = r := by
  cases h with
  | blank =>
    obtain rfl := List.map_eq_nil_iff.1 hw
    exact ⟨none, rfl, rfl⟩
  | @label name hid =>
    obtain ⟨first, rest, rfl, hc, hrest⟩ := List.map_eq_cons_iff.1 hw
    obtain rfl := List.map_eq_nil_iff.1 hrest
    have hk : first.kind = .declaration name := by
      rw [ht first List.mem_cons_self, hc, TokenKind.ofWord_declaration hid, String.ofList_toList]
    exact ⟨some (.label name first.span), by simp [ofTokens, hk], rfl⟩
  | @data _ rows hne hrows =>
    cases toks with
    | nil => exact absurd hw.symm hne
    | cons first rest =>
      have hlit := literals_of_forall₂ hrows hw ht
      have hsome : ∀ t ∈ first :: rest, t.literal?.isSome := by
        intro t hm
        have hm := List.mem_map_of_mem (f := Token.literal?) hm
        rw [hlit] at hm
        obtain ⟨row, -, hrow⟩ := List.mem_map.1 hm
        simp [← hrow]
      have hflat : (first :: rest).flatMap (fun t => t.literal?.getD []) = rows.flatten := by
        have h := congrArg (List.map fun x : Option (List UInt8) => x.getD []) hlit
        simp only [List.map_map, Function.comp_def, Option.getD_some, List.map_id'] at h
        rw [List.flatMap_def, h]
      obtain ⟨bytes, hb⟩ := Option.isSome_iff_exists.1 (hsome first List.mem_cons_self)
      have hf := ht first List.mem_cons_self
      have hk : first.kind = .literal bytes := by
        rw [hf, ← spellsBytes_iff]
        exact (Token.literal?_eq_some_iff hf).1 hb
      have hrow : dataRow line (first :: rest) = .ok (.data line rows.flatten) :=
        dataRow_eq_ok_iff.2 ⟨hsome, by rw [hflat]⟩
      exact ⟨some (.stmt (.data line rows.flatten)), by simp only [ofTokens, hk, hrow, Except.map],
        rfl⟩
  | @instr op ws operands ho =>
    obtain ⟨first, rest, rfl, hc, hrest⟩ := List.map_eq_cons_iff.1 hw
    have hk : first.kind = .opcode op := by
      rw [ht first List.mem_cons_self, hc, TokenKind.ofWord_mnemonic]
    obtain ⟨x, hx, rfl⟩ := operands?_of_spells line ho hrest
      fun t h => ht t (List.mem_cons_of_mem first h)
    exact ⟨some (.stmt (.instr line op x)),
      by simp [ofTokens, hk, instruction, hx, Except.map], rfl⟩

end Item
end
end Console16
