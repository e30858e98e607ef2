import Console16.Proofs.Text.HexNumber
import Console16.Source.Token

/-!
# Console16.Proofs.Source.WordClass

The classes of words, each said on its own. No word is in two of them: opcode and register names
are identifiers and differ from each other, a literal starts with a digit, a declaration ends with
a colon, and a label name is an identifier that is not reserved.

* `TokenKind.ofWord_eq_iff`: a word has the class that describes it, and no other.
-/

namespace Console16

open Text (Hex.isDigit Hex.value Hex.pack Hex.literal?)

/-- A word of the form `[a-zA-Z_][a-zA-Z0-9_]*`. -/
def IsIdentifier : List Char → Prop
  | [] => False
  | c :: cs => (c.isAlpha ∨ c = '_') ∧ ∀ d ∈ cs, d.isAlphanum ∨ d = '_'

/-- A word made of `0x` and these hexadecimal digits, at least one. -/
def IsLiteral (w ds : List Char) : Prop :=
  w = '0' :: 'x' :: ds ∧ ds ≠ [] ∧ ∀ d ∈ ds, d.isHexDigit

def NamesRegister (w : List Char) (r : Register) : Prop :=
  w = r.letter.toList ∨ w = r.name.toList

/-- A word that an operand cannot use as a label. -/
def IsReserved (w : List Char) : Prop :=
  (∃ op : Opcode, w = op.mnemonic.toList) ∨ ∃ r, NamesRegister w r

/-- A word that an operand can use as a label. -/
def IsLabelName (w : List Char) : Prop :=
  IsIdentifier w ∧ ¬IsReserved w

/-! ## Tables of names -/

theorem Register.ofName?_eq_some_iff {word : String} {r : Register} :
    ofName? word = some r ↔ word = r.letter ∨ word = r.name := by
  constructor
  · intro h
    obtain ⟨before, after, he, -⟩ := List.lookup_eq_some_iff.1 h
    have hm : (word, r) ∈ aliases := by simp [he]
    obtain ⟨s, -, hs⟩ := List.mem_flatMap.1 hm
    simp only [List.mem_cons, Prod.mk.injEq, List.not_mem_nil, or_false] at hs
    rcases hs with ⟨rfl, rfl⟩ | ⟨rfl, rfl⟩
    · exact .inl rfl
    · exact .inr rfl
  · rintro (rfl | rfl)
    · exact ofName?_letter r
    · exact ofName?_name r

theorem Opcode.ofMnemonic?_register (r : Register) :
    ofMnemonic? r.letter = none ∧ ofMnemonic? r.name = none := by
  revert r; decide

theorem isName_iff {w : List Char} : isName w = true ↔ IsIdentifier w := by
  cases w with
  | nil => simp [isName, IsIdentifier]
  | cons c cs => simp [isName, IsIdentifier, isNameStart, isNameChar]

theorem isIdentifier_mnemonic (op : Opcode) : IsIdentifier op.mnemonic.toList := by
  apply isName_iff.1
  cases op <;> decide

theorem isIdentifier_register (r : Register) :
    isName r.letter.toList = true ∧ isName r.name.toList = true := by
  revert r; decide

theorem IsReserved.isIdentifier {w : List Char} (h : IsReserved w) : IsIdentifier w := by
  rcases h with ⟨op, rfl⟩ | ⟨r, rfl | rfl⟩
  · exact isIdentifier_mnemonic op
  · exact isName_iff.1 (isIdentifier_register r).1
  · exact isName_iff.1 (isIdentifier_register r).2

/-! ## Literals and declarations are no identifiers -/

theorem IsLiteral.not_isIdentifier {w ds : List Char} (h : IsLiteral w ds) : ¬IsIdentifier w := by
  obtain ⟨rfl, -, -⟩ := h
  simp [IsIdentifier]

theorem IsIdentifier.colon_notMem {w : List Char} (h : IsIdentifier w) : ':' ∉ w := by
  intro hm
  cases w with
  | nil => simp at hm
  | cons c cs =>
    obtain ⟨hc, hcs⟩ := h
    rcases List.mem_cons.1 hm with rfl | hm
    · simp at hc
    · simpa using hcs ':' hm

theorem IsLiteral.colon_notMem {w ds : List Char} (h : IsLiteral w ds) : ':' ∉ w := by
  obtain ⟨rfl, -, hds⟩ := h
  intro hm
  have hm : ':' ∈ ds := by simpa using hm
  exact absurd (hds ':' hm) (by decide)

theorem isDigit_iff {c : Char} : Hex.isDigit c = true ↔ c.isHexDigit = true := by
  unfold Hex.isDigit Text.Hex.digit? Char.isHexDigit Char.isDigit
  simp only [Char.le_def, Bool.or_eq_true, Bool.and_eq_true, decide_eq_true_eq, ge_iff_le]
  split
  · simp_all
  · split
    · simp_all
    · split <;> simp_all

theorem literal?_eq_some_iff {w : List Char} {bytes : List UInt8} :
    Hex.literal? w = some bytes ↔ ∃ ds, IsLiteral w ds ∧ bytes = Hex.pack (ds.map Hex.value) := by
  constructor
  · intro h
    unfold Text.Hex.literal? at h
    split at h
    · rename_i d ds
      split at h
      · rename_i hall
        cases h
        refine ⟨d :: ds, ⟨rfl, List.cons_ne_nil d ds, fun x hx => ?_⟩, rfl⟩
        exact isDigit_iff.1 (List.all_eq_true.1 hall x hx)
      · cases h
    · cases h
  · rintro ⟨ds, ⟨rfl, hne, hds⟩, rfl⟩
    obtain ⟨d, ds, rfl⟩ := List.exists_cons_of_ne_nil hne
    have hall : (d :: ds).all Hex.isDigit = true :=
      List.all_eq_true.2 fun x hx => isDigit_iff.2 (hds x hx)
    simp only [Text.Hex.literal?, if_pos hall]

theorem declaredName?_eq_some_iff {w name : List Char} :
    declaredName? w = some name ↔ IsIdentifier name ∧ w = name ++ [':'] := by
  unfold declaredName?
  constructor
  · intro h
    split at h
    · rename_i hw
      cases h
      obtain ⟨hlast, hname⟩ := hw
      obtain ⟨ys, rfl⟩ := List.getLast?_eq_some_iff.1 hlast
      rw [List.dropLast_concat] at hname ⊢
      exact ⟨isName_iff.1 hname, rfl⟩
    · cases h
  · rintro ⟨hname, rfl⟩
    rw [List.dropLast_concat, List.getLast?_concat, if_pos ⟨rfl, isName_iff.2 hname⟩]

namespace TokenKind

/-! ## Classification -/

theorem ofWord_register {w : List Char} {r : Register} (h : NamesRegister w r) :
    ofWord w = .register r := by
  obtain ⟨hl, hn⟩ := Opcode.ofMnemonic?_register r
  rcases h with rfl | rfl
  · simp [ofWord, hl, Register.ofName?_letter]
  · simp [ofWord, hn, Register.ofName?_name]

theorem ofWord_of_not_isReserved {w : List Char} (h : ¬IsReserved w) : ofWord w = ofOther w := by
  have hop : Opcode.ofMnemonic? (String.ofList w) = none := by
    rw [Option.eq_none_iff_forall_ne_some]
    intro op hop
    have := Opcode.eq_of_mnemonic? hop
    exact h (.inl ⟨op, by rw [← this, String.toList_ofList]⟩)
  have hr : Register.ofName? (String.ofList w) = none := by
    rw [Option.eq_none_iff_forall_ne_some]
    intro r hr
    rcases Register.ofName?_eq_some_iff.1 hr with hr | hr
    · exact h (.inr ⟨r, .inl (by rw [← hr, String.toList_ofList])⟩)
    · exact h (.inr ⟨r, .inr (by rw [← hr, String.toList_ofList])⟩)
  simp only [ofWord, hop, hr]

theorem ofWord_literal {w ds : List Char} (h : IsLiteral w ds) :
    ofWord w = .literal (Hex.pack (ds.map Hex.value)) := by
  rw [ofWord_of_not_isReserved fun hr => h.not_isIdentifier hr.isIdentifier, ofOther,
    literal?_eq_some_iff.2 ⟨ds, h, rfl⟩]

theorem literal?_eq_none {w : List Char} (h : ∀ ds, ¬IsLiteral w ds) : Hex.literal? w = none := by
  rw [Option.eq_none_iff_forall_ne_some]
  intro bytes hb
  obtain ⟨ds, hds, -⟩ := literal?_eq_some_iff.1 hb
  exact h ds hds

theorem ofWord_declaration {name : List Char} (h : IsIdentifier name) :
    ofWord (name ++ [':']) = .declaration (String.ofList name) := by
  have hcolon : ':' ∈ name ++ [':'] := by simp
  rw [ofWord_of_not_isReserved fun hr => hr.isIdentifier.colon_notMem hcolon, ofOther,
    literal?_eq_none fun ds hds => hds.colon_notMem hcolon,
    declaredName?_eq_some_iff.2 ⟨h, rfl⟩]

theorem ofWord_reference {w : List Char} (h : IsLabelName w) :
    ofWord w = .reference (String.ofList w) := by
  have hd : declaredName? w = none := by
    rw [Option.eq_none_iff_forall_ne_some]
    intro name hname
    obtain ⟨-, rfl⟩ := declaredName?_eq_some_iff.1 hname
    exact h.1.colon_notMem (by simp)
  rw [ofWord_of_not_isReserved h.2, ofOther,
    literal?_eq_none fun ds hds => hds.not_isIdentifier h.1, hd, isName_iff.2 h.1]
  rfl

/-- What the class of a word says about its characters. -/
def Describes : TokenKind → List Char → Prop
  | .opcode op, w => w = op.mnemonic.toList
  | .register r, w => NamesRegister w r
  | .literal bytes, w => ∃ ds, IsLiteral w ds ∧ bytes = Hex.pack (ds.map Hex.value)
  | .declaration name, w => IsIdentifier name.toList ∧ w = name.toList ++ [':']
  | .reference name, w => IsLabelName w ∧ w = name.toList
  | .unknown, w => ¬IsIdentifier w ∧ (∀ ds, ¬IsLiteral w ds) ∧
      ∀ name, IsIdentifier name → w ≠ name ++ [':']

theorem describes_ofOther {w : List Char} (h : ¬IsReserved w) : (ofOther w).Describes w := by
  unfold ofOther
  split
  · rename_i bytes hb
    exact literal?_eq_some_iff.1 hb
  · rename_i hb
    have hlit : ∀ ds, ¬IsLiteral w ds := by
      intro ds hds
      rw [literal?_eq_some_iff.2 ⟨ds, hds, rfl⟩] at hb
      cases hb
    split
    · rename_i name hname
      obtain ⟨hid, rfl⟩ := declaredName?_eq_some_iff.1 hname
      exact ⟨by rwa [String.toList_ofList], by rw [String.toList_ofList]⟩
    · rename_i hd
      split
      · rename_i hname
        exact ⟨⟨isName_iff.1 hname, h⟩, by rw [String.toList_ofList]⟩
      · rename_i hname
        refine ⟨fun hid => hname (isName_iff.2 hid), hlit, ?_⟩
        rintro name hid rfl
        rw [declaredName?_eq_some_iff.2 ⟨hid, rfl⟩] at hd
        cases hd

theorem describes_ofWord (w : List Char) : (ofWord w).Describes w := by
  by_cases h : IsReserved w
  · rcases h with ⟨op, rfl⟩ | ⟨r, hr⟩
    · rw [ofWord_mnemonic]
      rfl
    · rw [ofWord_register hr]
      exact hr
  · rw [ofWord_of_not_isReserved h]
    exact describes_ofOther h

theorem ofWord_eq_iff {w : List Char} {kind : TokenKind} : ofWord w = kind ↔ kind.Describes w := by
  constructor
  · rintro rfl
    exact describes_ofWord w
  · intro h
    cases kind with
    | opcode op =>
      obtain rfl := h
      exact ofWord_mnemonic op
    | register r => exact ofWord_register h
    | literal bytes =>
      obtain ⟨ds, hds, rfl⟩ := h
      exact ofWord_literal hds
    | declaration name =>
      obtain ⟨hid, rfl⟩ := h
      rw [ofWord_declaration hid, String.ofList_toList]
    | reference name =>
      obtain ⟨hid, rfl⟩ := h
      rw [ofWord_reference hid, String.ofList_toList]
    | unknown =>
      obtain ⟨hid, hlit, hdecl⟩ := h
      have hd : declaredName? w = none := by
        rw [Option.eq_none_iff_forall_ne_some]
        intro name hname
        obtain ⟨hn, hw⟩ := declaredName?_eq_some_iff.1 hname
        exact hdecl name hn hw
      have hn : isName w = false := by
        rw [← Bool.not_eq_true, isName_iff]
        exact hid
      rw [ofWord_of_not_isReserved fun hr => hid hr.isIdentifier, ofOther, literal?_eq_none hlit,
        hd, hn]
      rfl

end TokenKind
end Console16
