import Console16.Proofs.Asm.Reading

/-!
# Console16.Proofs.Asm.Blame

What is wrong with the words of a line, as a relation. `Blames` has one rule for each fault, and no
order among them; a rule names the words to blame, between those before and those after them. It is
the counterpart of `Says`: words say something, or some of them are to blame.

* `Item.blamed_of_ofTokens`: the error of a line of tokens, from its words.
* `Item.ofTokens_of_blames`: words with a fault are refused for it, and for nothing else.
-/

namespace Console16

/-- The last operand in a format is a literal with too many digits for the bits it has to fit. -/
inductive Oversized : Format → List (List Char) → List Char → Nat → Prop where
  | regImm {a b ds : List Char} {r : Register} :
      NamesRegister a r → IsLiteral b ds → 4 < ds.length → Oversized .regImm [a] b 16
  | addr {a ds : List Char} : IsLiteral a ds → 4 < ds.length → Oversized .addr [] a 16
  | byte {a ds : List Char} : IsLiteral a ds → 2 < ds.length → Oversized .byte [] a 8

/-- A word that is neither an identifier nor a literal nor a declaration. -/
def IsUnclassified (w : List Char) : Prop :=
  ¬IsIdentifier w ∧ (∀ ds, ¬IsLiteral w ds) ∧ ∀ name, IsIdentifier name → w ≠ name ++ [':']

/-- The words of a line before, in and after the stretch that is to blame for a problem. -/
inductive Blames : List (List Char) → List (List Char) → List (List Char) → Problem → Prop where
  | register {w : List Char} {after : List (List Char)} {r : Register} :
      NamesRegister w r → Blames [] [w] after (.misplacedRegister (String.ofList w))
  | unknown {w : List Char} {after : List (List Char)} :
      IsLabelName w ∨ IsUnclassified w → Blames [] [w] after (.unknownToken (String.ofList w))
  | data {before after : List (List Char)} {w : List Char} :
      before ≠ [] → (∀ v ∈ before, ∃ ds, IsLiteral v ds) → (∀ ds, ¬IsLiteral w ds) →
      Blames before [w] after (.expectedData (String.ofList w))
  | label {name : String} {after : List (List Char)} :
      IsIdentifier name.toList → after ≠ [] →
      Blames [] [name.toList ++ [':']] after (.labelNotAlone name)
  | tooLarge {op : Opcode} {before : List (List Char)} {w : List Char} {bits : Nat} :
      Oversized op.format before w bits →
      Blames (op.mnemonic.toList :: before) [w] [] (.dataTooLarge bits)
  | operands {op : Opcode} {ws : List (List Char)} :
      (∀ o : Operands Written op.format, ¬SpellsOperands ws o) →
      (∀ before w bits, Oversized op.format before w bits → ws ≠ before ++ [w]) →
      Blames [] (op.mnemonic.toList :: ws) [] (.invalidSyntax op)

/-! ## Operands -/

namespace Token

variable {t : Token} {line : Nat} {e : AsmError}

theorem spanOf_nil (t : Token) : spanOf t [] = t.span := by
  simp [spanOf, Span.through, Span.stop]

theorem length_of_literal (ht : t.Honest) {bytes : List UInt8} (hk : t.kind = .literal bytes) :
    ∃ ds, IsLiteral t.chars ds ∧ bytes.length = (ds.length + 1) / 2 ∧ 0 < ds.length := by
  obtain ⟨ds, hds, hbytes⟩ := spellsBytes_of_kind ht hk
  exact ⟨ds, hds, (number_of_bytesOf hbytes).1, List.length_pos_iff.2 hds.2.1⟩

theorem kind_of_isLiteral (ht : t.Honest) {ds : List Char} (hds : IsLiteral t.chars ds) :
    ∃ bytes, t.kind = .literal bytes ∧ bytes.length = (ds.length + 1) / 2 := by
  refine ⟨Text.Hex.bytesOf ds, ?_, Text.Hex.length_bytesOf ds⟩
  rw [ht, TokenKind.ofWord_literal hds, Text.Hex.pack_eq_bytesOf]

theorem target?_eq_error_iff (ht : t.Honest) :
    t.target? line = some (.error e) ↔
      e = t.tooLarge 16 line ∧ ∃ ds, IsLiteral t.chars ds ∧ 4 < ds.length := by
  constructor
  · intro h
    unfold target? at h
    split at h
    · cases h
    · cases h
    · rename_i bytes hone htwo hk
      cases h
      obtain ⟨ds, hds, hlen, hpos⟩ := length_of_literal ht hk
      refine ⟨rfl, ds, hds, ?_⟩
      match bytes with
      | [] => simp at hlen; omega
      | [lo] => exact absurd rfl (hone lo)
      | [hi, lo] => exact absurd rfl (htwo hi lo)
      | _ :: _ :: _ :: _ => simp only [List.length_cons] at hlen; omega
    · cases h
    · cases h
  · rintro ⟨rfl, ds, hds, hlong⟩
    obtain ⟨bytes, hk, hlen⟩ := kind_of_isLiteral ht hds
    match bytes with
    | [] => simp at hlen; omega
    | [_] => simp at hlen; omega
    | [_, _] => simp at hlen; omega
    | _ :: _ :: _ :: _ => simp only [target?, hk]

theorem byte?_eq_error_iff (ht : t.Honest) :
    t.byte? line = some (.error e) ↔
      e = t.tooLarge 8 line ∧ ∃ ds, IsLiteral t.chars ds ∧ 2 < ds.length := by
  constructor
  · intro h
    unfold byte? at h
    split at h
    · cases h
    · rename_i bytes hone hk
      cases h
      obtain ⟨ds, hds, hlen, hpos⟩ := length_of_literal ht hk
      refine ⟨rfl, ds, hds, ?_⟩
      match bytes with
      | [] => simp at hlen; omega
      | [b] => exact absurd rfl (hone b)
      | _ :: _ :: _ => simp only [List.length_cons] at hlen; omega
    · cases h
  · rintro ⟨rfl, ds, hds, hlong⟩
    obtain ⟨bytes, hk, hlen⟩ := kind_of_isLiteral ht hds
    match bytes with
    | [] => simp at hlen; omega
    | [_] => simp at hlen; omega
    | _ :: _ :: _ => simp only [byte?, hk]

end Token

theorem map_map_eq_error_iff {α β : Type} {g : α → β} {x : Option (Except AsmError α)}
    {e : AsmError} : (x.map fun y => y.map g) = some (.error e) ↔ x = some (.error e) := by
  rcases x with _ | (e' | a) <;> simp [Except.map]

section
variable {f : Format} {toks : List Token} {line : Nat} {e : AsmError}

/-- Operands are in error exactly for a literal with too many digits in the last place. -/
theorem operands?_eq_error_iff (ht : ∀ t ∈ toks, t.Honest) :
    operands? line f toks = some (.error e) ↔
      ∃ init t bits, toks = init ++ [t] ∧ Oversized f (init.map Token.chars) t.chars bits ∧
        e = t.tooLarge bits line := by
  constructor
  · intro h
    unfold operands? at h
    split at h
    · cases h
    · split at h <;> cases h
    · obtain ⟨r, -, hr⟩ := Option.map_eq_some_iff.1 h
      cases hr
    · rename_i a b
      split at h
      · rename_i r hr
        obtain ⟨rfl, ds, hds, hlong⟩ :=
          (Token.target?_eq_error_iff (ht b (by simp))).1 (map_map_eq_error_iff.1 h)
        have hr := (Token.register?_eq_some_iff (ht a (by simp))).1 hr
        exact ⟨[a], b, 16, rfl, .regImm hr hds hlong, rfl⟩
      · cases h
    · rename_i a
      obtain ⟨rfl, ds, hds, hlong⟩ :=
        (Token.target?_eq_error_iff (ht a (by simp))).1 (map_map_eq_error_iff.1 h)
      exact ⟨[], a, 16, rfl, .addr hds hlong, rfl⟩
    · cases h
    · rename_i a
      obtain ⟨rfl, ds, hds, hlong⟩ :=
        (Token.byte?_eq_error_iff (ht a (by simp))).1 (map_map_eq_error_iff.1 h)
      exact ⟨[], a, 8, rfl, .byte hds hlong, rfl⟩
    · cases h
  · rintro ⟨init, t, bits, rfl, hover, rfl⟩
    have hlast : t.Honest := ht t (by simp)
    generalize hinit : init.map Token.chars = before at hover
    generalize hw : t.chars = w at hover
    cases hover with
    | @regImm a b ds r hr hds hlong =>
      obtain ⟨u, rest, rfl, rfl, hrest⟩ := List.map_eq_cons_iff.1 hinit
      obtain rfl := List.map_eq_nil_iff.1 hrest
      have hr := (Token.register?_eq_some_iff (ht u (by simp))).2 hr
      have ht : t.target? line = some (.error (t.tooLarge 16 line)) :=
        (Token.target?_eq_error_iff hlast).2 ⟨rfl, ds, hw ▸ hds, hlong⟩
      simp only [List.cons_append, List.nil_append, operands?, hr, ht, Option.map_some, Except.map]
    | @addr a ds hds hlong =>
      obtain rfl := List.map_eq_nil_iff.1 hinit
      have ht : t.target? line = some (.error (t.tooLarge 16 line)) :=
        (Token.target?_eq_error_iff hlast).2 ⟨rfl, ds, hw ▸ hds, hlong⟩
      simp only [List.nil_append, operands?, ht, Option.map_some, Except.map]
    | @byte a ds hds hlong =>
      obtain rfl := List.map_eq_nil_iff.1 hinit
      have ht : t.byte? line = some (.error (t.tooLarge 8 line)) :=
        (Token.byte?_eq_error_iff hlast).2 ⟨rfl, ds, hw ▸ hds, hlong⟩
      simp only [List.nil_append, operands?, ht, Option.map_some, Except.map]

/-- Operands have the wrong shape exactly when they neither spell any nor are too large. -/
theorem operands?_eq_none_iff (ht : ∀ t ∈ toks, t.Honest) :
    operands? line f toks = none ↔
      (∀ o : Operands Written f, ¬SpellsOperands (toks.map Token.chars) o) ∧
      ∀ before w bits, Oversized f before w bits → toks.map Token.chars ≠ before ++ [w] := by
  constructor
  · intro h
    refine ⟨fun o ho => ?_, fun before w bits hover hw => ?_⟩
    · obtain ⟨x, hx, -⟩ := operands?_of_spells line ho rfl ht
      rw [h] at hx
      cases hx
    · obtain ⟨init, last, rfl, rfl, hlast⟩ := List.map_eq_append_iff.1 hw
      obtain ⟨t, rest, rfl, rfl, hrest⟩ := List.map_eq_cons_iff.1 hlast
      obtain rfl := List.map_eq_nil_iff.1 hrest
      have herr : operands? line f (init ++ [t]) = some (.error (t.tooLarge bits line)) :=
        (operands?_eq_error_iff ht).2 ⟨init, t, bits, rfl, hover, rfl⟩
      rw [h] at herr
      cases herr
  · rintro ⟨hspells, hover⟩
    rcases h : operands? line f toks with _ | (e | o)
    · rfl
    · obtain ⟨init, t, bits, rfl, hbig, -⟩ := (operands?_eq_error_iff ht).1 h
      exact absurd (by simp) (hover _ _ bits hbig)
    · exact absurd (spellsOperands_of_operands? ht h) (hspells _)

end

/-! ## Lines -/

namespace Item

variable {toks : List Token} {line : Nat} {e : AsmError}

theorem dataRow_of_split {before after : List Token} {t : Token}
    (hbefore : ∀ u ∈ before, u.literal?.isSome) (ht : t.literal? = none) :
    dataRow line (before ++ t :: after) = .error (.located (.expectedData t.text) line t.span) := by
  have hfind : (before ++ t :: after).find? (fun u => u.literal?.isNone) = some t := by
    rw [List.find?_eq_some_iff_append]
    refine ⟨Option.isNone_iff_eq_none.2 ht, before, after, rfl, fun u hu => ?_⟩
    obtain ⟨bytes, hbytes⟩ := Option.isSome_iff_exists.1 (hbefore u hu)
    simp [hbytes]
  rw [dataRow, hfind]

theorem split_of_dataRow (h : dataRow line toks = .error e) :
    ∃ before t after, toks = before ++ t :: after ∧ (∀ u ∈ before, u.literal?.isSome) ∧
      t.literal? = none ∧ e = .located (.expectedData t.text) line t.span := by
  unfold dataRow at h
  split at h
  · rename_i t hfind
    cases h
    obtain ⟨ht, before, after, rfl, hbefore⟩ := List.find?_eq_some_iff_append.1 hfind
    refine ⟨before, t, after, rfl, fun u hu => ?_, Option.isNone_iff_eq_none.1 ht, rfl⟩
    simpa [← Option.isSome_iff_ne_none] using hbefore u hu
  · cases h

theorem isLiteral_of_literal? {t : Token} (ht : t.Honest) (h : t.literal?.isSome) :
    ∃ ds, IsLiteral t.chars ds := by
  obtain ⟨bytes, hbytes⟩ := Option.isSome_iff_exists.1 h
  obtain ⟨ds, hds, -⟩ := (Token.literal?_eq_some_iff ht).1 hbytes
  exact ⟨ds, hds⟩

theorem literal?_of_isLiteral {t : Token} (ht : t.Honest) {ds : List Char}
    (h : IsLiteral t.chars ds) : t.literal?.isSome := by
  rw [(Token.literal?_eq_some_iff ht).2 ⟨ds, h, rfl⟩]
  rfl

theorem text_eq (t : Token) : t.text = String.ofList t.chars :=
  String.ofList_toList.symm

/-- The error of a line of tokens blames some of them and marks these, from the first to the last. -/
def Blamed (line : Nat) (toks : List Token) (e : AsmError) : Prop :=
  ∃ before first rest after p, toks = before ++ first :: rest ++ after ∧
    Blames (before.map Token.chars) ((first :: rest).map Token.chars) (after.map Token.chars) p ∧
    e = .located p line (spanOf first rest)

theorem blamed_of_word (before : List Token) {after : List Token} {t : Token} {p : Problem}
    (h : Blames (before.map Token.chars) [t.chars] (after.map Token.chars) p) :
    Blamed line (before ++ t :: after) (.located p line t.span) :=
  ⟨before, t, [], after, p, by simp, h, by rw [Token.spanOf_nil]⟩

theorem blamed_of_instruction {op : Opcode} {first : Token} {rest : List Token}
    (hop : first.chars = op.mnemonic.toList) (hr : ∀ t ∈ rest, t.Honest)
    (h : instruction line op first rest = .error e) : Blamed line (first :: rest) e := by
  unfold instruction at h
  split at h
  · cases h
  · rename_i e' ho
    cases h
    obtain ⟨init, t, bits, rfl, hover, rfl⟩ := (operands?_eq_error_iff hr).1 ho
    apply blamed_of_word (first :: init)
    rw [List.map_cons, hop]
    exact .tooLarge hover
  · rename_i ho
    cases h
    obtain ⟨hspells, hover⟩ := (operands?_eq_none_iff hr).1 ho
    refine ⟨[], first, rest, [], .invalidSyntax op, by simp, ?_, rfl⟩
    rw [List.map_cons, hop]
    exact .operands hspells hover

theorem blamed_of_dataRow {first : Token} {rest : List Token}
    (ht : ∀ t ∈ first :: rest, t.Honest) (hf : first.literal?.isSome)
    (h : dataRow line (first :: rest) = .error e) : Blamed line (first :: rest) e := by
  obtain ⟨before, t, after, hsplit, hbefore, hnone, rfl⟩ := split_of_dataRow h
  rw [hsplit] at ht ⊢
  apply blamed_of_word before
  rw [text_eq]
  refine .data ?_ ?_ fun ds hds => ?_
  · -- the first word is a literal, so it is not the one to blame
    intro hnil
    obtain rfl := List.map_eq_nil_iff.1 hnil
    obtain ⟨rfl, -⟩ := List.cons_eq_cons.1 hsplit
    simp [hnone] at hf
  · intro v hv
    obtain ⟨u, hu, rfl⟩ := List.mem_map.1 hv
    exact isLiteral_of_literal? (ht u (by simp [hu])) (hbefore u hu)
  · have := literal?_of_isLiteral (ht t (by simp)) hds
    simp [hnone] at this

theorem blamed_of_ofTokens (ht : ∀ t ∈ toks, t.Honest) (h : ofTokens line toks = .error e) :
    Blamed line toks e := by
  cases toks with
  | nil => cases h
  | cons first rest =>
    have hf := ht first List.mem_cons_self
    have hw : ∀ {kind : TokenKind}, first.kind = kind → kind.Describes first.chars := fun hk =>
      TokenKind.ofWord_eq_iff.1 (hf.symm.trans hk)
    have hfirst : ∀ {p : Problem}, Blames [] [first.chars] (rest.map Token.chars) p →
        Blamed line (first :: rest) (.located p line first.span) := fun hb =>
      blamed_of_word [] hb
    simp only [ofTokens] at h
    split at h
    · rename_i op hk
      exact blamed_of_instruction (hw hk) (fun t hm => ht t (List.mem_cons_of_mem first hm))
        (Except.map_eq_error_iff.1 h)
    · rename_i bytes hk
      exact blamed_of_dataRow ht (by simp [Token.literal?, hk]) (Except.map_eq_error_iff.1 h)
    · rename_i name hk
      split at h
      · cases h
      · rename_i hne
        cases h
        obtain ⟨hid, hc⟩ := hw hk
        apply hfirst
        rw [hc]
        exact .label hid (by simpa using hne)
    · rename_i r hk
      cases h
      rw [text_eq]
      exact hfirst (.register (hw hk))
    · rename_i name hk
      cases h
      rw [text_eq]
      exact hfirst (.unknown (.inl (hw hk).1))
    · rename_i hk
      cases h
      rw [text_eq]
      exact hfirst (.unknown (.inr (hw hk)))

theorem ofTokens_of_blames (line : Nat) {before marked after : List (List Char)} {p : Problem}
    (h : Blames before marked after p) (hw : toks.map Token.chars = before ++ marked ++ after)
    (ht : ∀ t ∈ toks, t.Honest) : ∃ span, ofTokens line toks = .error (.located p line span) := by
  cases h with
  | @register w after r hreg =>
    obtain ⟨first, rest, rfl, rfl, -⟩ := List.map_eq_cons_iff.1 hw
    have hk : first.kind = .register r := by
      rw [ht first List.mem_cons_self, TokenKind.ofWord_register hreg]
    exact ⟨first.span, by simp only [ofTokens, hk, text_eq]⟩
  | @unknown w after hun =>
    obtain ⟨first, rest, rfl, rfl, -⟩ := List.map_eq_cons_iff.1 hw
    have hf := ht first List.mem_cons_self
    rcases hun with hname | hun
    · have hk : first.kind = .reference (String.ofList first.chars) := by
        rw [hf, TokenKind.ofWord_reference hname]
      exact ⟨first.span, by simp only [ofTokens, hk, text_eq]⟩
    · have hk : first.kind = .unknown := hf.trans (TokenKind.ofWord_eq_iff.2 hun)
      exact ⟨first.span, by simp only [ofTokens, hk, text_eq]⟩
  | @data before after w hne hbefore hdata =>
    rw [List.append_assoc] at hw
    obtain ⟨pre, tail, rfl, rfl, htail⟩ := List.map_eq_append_iff.1 hw
    obtain ⟨t, post, rfl, rfl, -⟩ := List.map_eq_cons_iff.1 htail
    have hpre : ∀ u ∈ pre, u.literal?.isSome := by
      intro u hu
      obtain ⟨ds, hds⟩ := hbefore u.chars (List.mem_map_of_mem hu)
      exact literal?_of_isLiteral (ht u (by simp [hu])) hds
    have hnone : t.literal? = none := by
      rw [← Option.not_isSome_iff_eq_none]
      intro hsome
      obtain ⟨ds, hds⟩ := isLiteral_of_literal? (ht t (by simp)) hsome
      exact hdata ds hds
    have hrow : dataRow line (pre ++ t :: post) =
        .error (.located (.expectedData t.text) line t.span) := dataRow_of_split hpre hnone
    cases pre with
    | nil => exact absurd rfl hne
    | cons first pre =>
      have hf := ht first (by simp)
      obtain ⟨bytes, hk, -⟩ := Token.kind_of_isLiteral hf
        (isLiteral_of_literal? hf (hpre first List.mem_cons_self)).choose_spec
      refine ⟨t.span, ?_⟩
      simp only [List.cons_append, ofTokens, hk] at hrow ⊢
      rw [hrow, text_eq]
      rfl
  | @label name after hid hne =>
    obtain ⟨first, rest, rfl, hc, hrest⟩ := List.map_eq_cons_iff.1 hw
    have hk : first.kind = .declaration name := by
      rw [ht first List.mem_cons_self, hc, TokenKind.ofWord_declaration hid, String.ofList_toList]
    have hrest : rest ≠ [] := by
      rintro rfl
      exact hne (by simpa using hrest.symm)
    exact ⟨first.span, by simp [ofTokens, hk, hrest]⟩
  | @tooLarge op before w bits hover =>
    rw [List.append_nil, List.cons_append] at hw
    obtain ⟨first, rest, rfl, hc, hrest⟩ := List.map_eq_cons_iff.1 hw
    obtain ⟨init, last, rfl, rfl, hlast⟩ := List.map_eq_append_iff.1 hrest
    obtain ⟨t, more, rfl, rfl, hnil⟩ := List.map_eq_cons_iff.1 hlast
    obtain rfl := List.map_eq_nil_iff.1 hnil
    have hk : first.kind = .opcode op := by
      rw [ht first List.mem_cons_self, hc, TokenKind.ofWord_mnemonic]
    have herr : operands? line op.format (init ++ [t]) = some (.error (t.tooLarge bits line)) :=
      (operands?_eq_error_iff fun u hu => ht u (List.mem_cons_of_mem first hu)).2
        ⟨init, t, bits, rfl, hover, rfl⟩
    exact ⟨t.span, by simp only [ofTokens, hk, instruction, herr, Except.map, Token.tooLarge]⟩
  | @operands op ws hspells hover =>
    rw [List.nil_append, List.append_nil] at hw
    obtain ⟨first, rest, rfl, hc, rfl⟩ := List.map_eq_cons_iff.1 hw
    have hk : first.kind = .opcode op := by
      rw [ht first List.mem_cons_self, hc, TokenKind.ofWord_mnemonic]
    have hnone : operands? line op.format rest = none :=
      (operands?_eq_none_iff fun u hu => ht u (List.mem_cons_of_mem first hu)).2 ⟨hspells, hover⟩
    exact ⟨spanOf first rest, by simp only [ofTokens, hk, instruction, hnone, Except.map]⟩

end Item
end Console16
