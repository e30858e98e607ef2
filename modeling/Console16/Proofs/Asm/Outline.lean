import Console16.Proofs.Asm.Diagnostics
import Console16.Proofs.Asm.Recast

/-!
# Console16.Proofs.Asm.Outline

A whole text told in other words. Lines are read one after the other, so a text whose lines are
recast is read to the recast of what the text is read to, and resolved to the recast of what that is
resolved to. Names are compared with each other, so this holds as long as two names of the text are
not replaced by one. Lines without words leave no trace.

The rows that are left, told in other words, are an outline of the text: two texts with one outline
differ in nothing the recast keeps.

* `Draft.ofRows_recast`: reading recast lines.
* `Recast.verdict_draft`: labels looked up and bytes laid, or errors, in other words.
* `Recast.report_assemble`: what a text is assembled to, told in other words, from its outline.
* `assembled_of_outline`: two texts with one outline.
-/

namespace Console16

/-! ## Labels -/

namespace LabelTable

variable {f : String → String} {t : LabelTable} {name : String}

def rename (f : String → String) (t : LabelTable) : LabelTable :=
  ⟨t.entries.map fun entry => (f entry.1, entry.2)⟩

theorem toList_rename (f : String → String) (t : LabelTable) :
    (t.rename f).toList = t.toList.map fun entry => (f entry.1, entry.2) := by
  simp [rename, toList]

/-- No other label of the table gets the new name of this one. -/
def Apart (t : LabelTable) (f : String → String) (name : String) : Prop :=
  ∀ other, t.get? other ≠ none → f other = f name → other = name

theorem lookup_map {entries : List (String × Nat)}
    (h : ∀ entry ∈ entries, f entry.1 = f name → entry.1 = name) :
    (entries.map fun entry => (f entry.1, entry.2)).lookup (f name) = entries.lookup name := by
  induction entries with
  | nil => rfl
  | cons entry entries ih =>
    have ih := ih fun e he => h e (List.mem_cons_of_mem entry he)
    by_cases hname : entry.1 = name
    · obtain ⟨key, offset⟩ := entry
      obtain rfl : key = name := hname
      simp
    · have hf : f name ≠ f entry.1 := fun he => hname (h entry List.mem_cons_self he.symm)
      rw [List.map_cons, List.lookup_cons, List.lookup_cons, beq_eq_false_iff_ne.2 hf,
        beq_eq_false_iff_ne.2 (Ne.symm hname), ih]

theorem get?_rename (h : t.Apart f name) : (t.rename f).get? (f name) = t.get? name := by
  rw [get?_eq_lookup, get?_eq_lookup, toList_rename]
  apply lookup_map
  intro entry he
  apply h
  rw [get?_eq_lookup]
  intro hnone
  have := List.lookup_eq_none_iff.1 hnone entry he
  simp at this

theorem insert?_rename (h : t.Apart f name) (offset : Nat) :
    (t.rename f).insert? (f name) offset = (t.insert? name offset).map (rename f) := by
  unfold insert?
  rw [get?_rename h]
  cases t.get? name with
  | none => simp [rename]
  | some o => rfl

end LabelTable

/-- No label gets the new name of a name that an operand uses. -/
def Listing.Apart (l : Listing) (f : String → String) : Prop :=
  ∀ s ∈ l.stmts.toList, ∀ ref, s.ref? = some ref → l.labels.Apart f ref.name

/-! ## Reading -/

/-- The number and the tokens of a line. -/
structure Row where
  number : Nat
  tokens : List Token

def Line.row (l : Line) : Row :=
  ⟨l.number, l.tokens⟩

namespace Recast

variable (r : Recast)

def row (row : Row) : Row :=
  ⟨r.line row.number, row.tokens.map r.token⟩

def listing (l : Listing) : Listing :=
  ⟨l.stmts.map (r.stmt r.target), l.labels.rename r.name, l.byteLen⟩

def draft (d : Draft) : Draft :=
  ⟨r.listing d.listing, d.errors.map r.error⟩

end Recast

namespace Draft

/-- Lays what a line is taken for, or keeps its error. -/
def take (d : Draft) (line : Nat) : Except AsmError (Option Item) → Draft
  | .ok none => d
  | .ok (some item) => d.place line item
  | .error e => d.fail e

def readRow (d : Draft) (row : Row) : Draft :=
  d.take row.number (Item.ofTokens row.number row.tokens)

/-- Reads rows from the first to the last. -/
def ofRows (rows : List Row) : Draft :=
  rows.foldl readRow empty

theorem read_eq_take (d : Draft) (l : Line) : d.read l = d.take l.number l.item := by
  unfold read take Line.item
  rcases Item.ofTokens l.number l.tokens with e | _ | item <;> rfl

/-- Rows without words can be left out. -/
theorem ofRows_filter (rows : List Row) :
    ofRows (rows.filter fun row => row.tokens ≠ []) = ofRows rows := by
  unfold ofRows
  rw [List.foldl_filter]
  congr 1
  funext d row
  split
  · rfl
  · rename_i h
    have hnil : row.tokens = [] := by simpa using h
    rw [readRow, hnil, Item.ofTokens_nil, take]

variable {r : Recast}

theorem declare?_listing {l : Listing} {name : String} (h : l.labels.Apart r.name name) :
    (r.listing l).declare? (r.name name) = (l.declare? name).map r.listing := by
  simp only [Listing.declare?, Recast.listing, LabelTable.insert?_rename h, Option.map_map]
  rfl

theorem place_item {d : Draft} {line : Nat} {it : Item}
    (h : ∀ name span, it = .label name span → d.listing.labels.Apart r.name name) :
    (r.draft d).place (r.line line) (r.item it) = r.draft (d.place line it) := by
  cases it with
  | stmt s => simp [place, Recast.item, Recast.draft, Recast.listing, Listing.add]
  | label name span =>
    have hdecl : (r.draft d).listing.declare? (r.name name) =
        (d.listing.declare? name).map r.listing := declare?_listing (h name span rfl)
    simp only [place, Recast.item]
    rw [hdecl]
    cases d.listing.declare? name with
    | none => simp [fail, Recast.draft, Recast.error, Recast.problem]
    | some l => rfl

theorem take_result {d : Draft} {line : Nat} {said : Except AsmError (Option Item)}
    (h : ∀ name span, said = .ok (some (.label name span)) → d.listing.labels.Apart r.name name) :
    (r.draft d).take (r.line line) (r.result (Option.map r.item) said) =
      r.draft (d.take line said) := by
  rcases said with e | _ | it
  · simp [take, Recast.result, fail, Recast.draft]
  · rfl
  · apply place_item
    rintro name span rfl
    exact h name span rfl

theorem mem_labelsOf {lines : List Line} {name : String}
    (h : (ofLines lines).listing.labels.get? name ≠ none) : name ∈ labelsOf lines :=
  not_not.1 (mt (get?_labels_eq_none_iff lines name).2 h)

/-- One line more, and from it all lines, are read as the lines before them were. -/
theorem ofRows_recast {lines : List Line}
    (hinj : Set.InjOn r.name {name | name ∈ labelsOf lines}) :
    ofRows (lines.map fun l => r.row l.row) = r.draft (ofLines lines) := by
  induction lines using List.reverseRecOn with
  | nil => simp [ofRows, Recast.draft, Recast.listing, empty, Listing.empty, LabelTable.rename,
      LabelTable.empty]
  | append_singleton ls l ih =>
    rw [labelsOf_append, labelsOf_singleton] at hinj
    have ih := ih (hinj.mono fun name hname => List.mem_append_left _ hname)
    rw [ofLines_concat, read_eq_take, ← take_result, ← ih, Line.item, ← r.ofTokens_tokens]
    · simp [ofRows, readRow, Recast.row, Line.row]
    · -- the labels above are labels of the text, as the one declared here is
      intro name span hitem other hother hsame
      have hname : l.label? = some name := by rw [Line.label?, hitem]
      exact hinj (List.mem_append_left _ (mem_labelsOf hother)) (by simp [hname]) hsame

end Draft

/-! ## Resolution -/

theorem Operands.map_id {T : Type} {f : Format} (o : Operands T f) : o.map id = o := by
  cases o <;> rfl

namespace Recast

variable {r : Recast}

@[simp] theorem bytes_stmt (s : Stmt UInt16) : (r.stmt id s).bytes = s.bytes := by
  cases s with
  | instr line op operands => rw [stmt, Operands.map_id, Stmt.bytes, Stmt.bytes]
  | data line bytes => rfl

theorem tryMap_resolve {labels : LabelTable} {f : Format} {o : Operands Target f}
    (h : ∀ ref, o.imm? = some (.label ref) → labels.Apart r.name ref.name) :
    (o.map r.target).tryMap (·.resolve (labels.rename r.name)) =
      r.result id (o.tryMap (·.resolve labels)) := by
  have htarget : ∀ t, o.imm? = some t →
      (r.target t).resolve (labels.rename r.name) = r.result id (t.resolve labels) := by
    intro t ht
    cases t with
    | value v => rfl
    | label ref =>
      simp only [target, Recast.ref, Target.resolve, LabelTable.get?_rename (h ref ht)]
      cases labels.get? ref.name <;> rfl
  cases o with
  | regImm reg imm =>
    simp only [Operands.map, Operands.tryMap, htarget imm rfl]
    cases imm.resolve labels <;> rfl
  | addr imm =>
    simp only [Operands.map, Operands.tryMap, htarget imm rfl]
    cases imm.resolve labels <;> rfl
  | _ => rfl

theorem resolve_stmt {labels : LabelTable} {s : Stmt Target}
    (h : ∀ ref, s.ref? = some ref → labels.Apart r.name ref.name) :
    (r.stmt r.target s).resolve (labels.rename r.name) =
      r.result (r.stmt id) (s.resolve labels) := by
  cases s with
  | data line bytes => rfl
  | instr line op operands =>
    have ho : ∀ ref, operands.imm? = some (.label ref) → labels.Apart r.name ref.name := by
      intro ref href
      exact h ref (by simp [Stmt.ref?, href])
    simp only [stmt, Stmt.resolve, tryMap_resolve ho]
    cases operands.tryMap (·.resolve labels) with
    | error e => rfl
    | ok o => simp [Except.map, result, stmt, Operands.map_id]

theorem oversized_listing (l : Listing) : (r.listing l).oversized = l.oversized.map r.error := by
  unfold Listing.oversized listing
  split <;> rfl

/-- The image of a text, or its errors in other words. -/
def report (r : Recast) :
    Except (List AsmError) (List UInt8) → Except (List AsmError) (List UInt8) :=
  Except.mapError (List.map r.error)

section
variable {l : Listing} (h : l.Apart r.name)
include h

theorem lookedUp_listing :
    (r.listing l).lookedUp = l.lookedUp.map (r.result (r.stmt id)) := by
  simp only [Listing.lookedUp, listing, Array.toList_map, List.map_map]
  exact List.map_congr_left fun s hs => resolve_stmt (h s hs)

theorem unresolved_listing : (r.listing l).unresolved = l.unresolved.map r.error := by
  rw [Listing.unresolved, lookedUp_listing h, List.filterMap_map, Listing.unresolved,
    List.map_filterMap]
  congr 1
  funext x
  cases x <;> rfl

theorem resolved_listing : (r.listing l).resolved = l.resolved.map (r.stmt id) := by
  rw [Listing.resolved, lookedUp_listing h, List.filterMap_map, Listing.resolved,
    List.map_filterMap]
  congr 1
  funext x
  cases x <;> rfl

theorem image_listing :
    (r.listing l).resolve.map Program.image = r.report (l.resolve.map Program.image) := by
  have hbad : (r.listing l).unresolved ++ (r.listing l).oversized =
      (l.unresolved ++ l.oversized).map r.error := by
    rw [unresolved_listing h, oversized_listing, List.map_append]
  rw [Listing.resolve_eq, Listing.resolve_eq, hbad, resolved_listing h]
  cases l.unresolved ++ l.oversized with
  | nil => simp [report, Except.map, Except.mapError, Program.image_eq, List.flatMap_map]
  | cons e errors => rfl

end

end Recast

/-! ## Texts -/

/-- The image of what has been read, or everything that keeps it from having one. -/
def Draft.verdict (d : Draft) : Except (List AsmError) (List UInt8) :=
  if d.errors.isEmpty then d.listing.resolve.map Program.image else .error d.errors.toList

theorem assemble_eq_verdict (source : String) :
    assemble source = (Draft.ofLines (sourceLines source.toList)).verdict := by
  unfold assemble programOf Listing.ofSource Draft.verdict
  simp only
  split
  · rename_i h
    split at h
    · rename_i hempty
      cases h
      rw [if_pos hempty]
    · cases h
  · rename_i h
    split at h
    · cases h
    · rename_i hempty
      cases h
      rw [if_neg hempty]
      rfl

/-- A line of the text declares the name, or an operand or a stray word is that name. -/
def Mentions (source : List Char) (name : String) : Prop :=
  ∃ l ∈ sourceLines source, ∃ t ∈ l.tokens, t.kind = .declaration name ∨ t.kind = .reference name

theorem mentions_of_label {source : List Char} {name : String}
    (h : name ∈ labelsOf (sourceLines source)) : Mentions source name := by
  obtain ⟨l, hl, hlabel⟩ := List.mem_filterMap.1 h
  unfold Line.label? at hlabel
  split at hlabel
  · rename_i hitem
    cases hlabel
    obtain ⟨t, htoks, hk, -⟩ := Item.tokens_of_label hitem
    exact ⟨l, hl, t, by simp [htoks], .inl hk⟩
  · cases hlabel

theorem mentions_of_ref {source : List Char} {s : Stmt Target} {ref : LabelRef}
    (h : s ∈ stmtsOf (sourceLines source)) (href : s.ref? = some ref) :
    Mentions source ref.name := by
  obtain ⟨l, hl, hstmt⟩ := List.mem_filterMap.1 h
  obtain ⟨t, ht, hk, -⟩ := Item.token_of_ref (Line.stmt?_eq_some_iff.1 hstmt) href
  exact ⟨l, hl, t, ht, .inr hk⟩

namespace Recast

variable (r : Recast)

theorem verdict_draft {d : Draft} (h : d.listing.Apart r.name) :
    (r.draft d).verdict = r.report d.verdict := by
  have hempty : (r.draft d).errors.isEmpty = d.errors.isEmpty := by
    simp [draft, Array.isEmpty]
  unfold Draft.verdict
  rw [hempty]
  split
  · exact image_listing h
  · simp [report, Except.mapError, draft]

/-- The lines with words in them, in other words. -/
def outline (source : List Char) : List Row :=
  ((sourceLines source).map fun l => r.row l.row).filter fun row => row.tokens ≠ []

theorem report_assemble {source : String}
    (hinj : Set.InjOn r.name {name | Mentions source.toList name}) :
    r.report (assemble source) = (Draft.ofRows (r.outline source.toList)).verdict := by
  have hlabels : Set.InjOn r.name {name | name ∈ labelsOf (sourceLines source.toList)} :=
    hinj.mono fun name => mentions_of_label
  rw [outline, Draft.ofRows_filter, Draft.ofRows_recast hlabels, assemble_eq_verdict,
    verdict_draft]
  intro s hs ref href other hother hsame
  rw [Draft.stmts_ofLines] at hs
  exact hinj (mentions_of_label (Draft.mem_labelsOf hother)) (mentions_of_ref hs href) hsame

end Recast

/-! ## Two texts -/

/-- What is wrong with a text, apart from where and from the words it quotes. -/
inductive ErrorKind where
  | invalidSyntax (op : Opcode)
  | labelNotAlone
  | duplicateLabel
  | unresolvedLabel
  | dataTooLarge (bits : Nat)
  | misplacedRegister
  | expectedData
  | unknownToken
  | outputTooLarge (byteLen : Nat)
  deriving DecidableEq, Repr

def Problem.kind : Problem → ErrorKind
  | .invalidSyntax op => .invalidSyntax op
  | .labelNotAlone _ => .labelNotAlone
  | .duplicateLabel _ => .duplicateLabel
  | .unresolvedLabel _ => .unresolvedLabel
  | .dataTooLarge bits => .dataTooLarge bits
  | .misplacedRegister _ => .misplacedRegister
  | .expectedData _ => .expectedData
  | .unknownToken _ => .unknownToken

def AsmError.kind : AsmError → ErrorKind
  | .located p _ _ => p.kind
  | .outputTooLarge byteLen => .outputTooLarge byteLen

@[simp] theorem Recast.kind_error (r : Recast) (e : AsmError) : (r.error e).kind = e.kind := by
  cases e with
  | located p line span => cases p <;> rfl
  | outputTooLarge byteLen => rfl

/-- The image of a text or, of each of its errors in turn, what `view` shows. -/
def assembled {α : Type} (view : AsmError → α) (source : String) : Except (List α) (List UInt8) :=
  (assemble source).mapError (List.map view)

theorem Recast.assembled_eq {α : Type} (r : Recast) {view : AsmError → α}
    (h : ∀ e, view (r.error e) = view e) (source : String) :
    assembled view source = (r.report (assemble source)).mapError (List.map view) := by
  unfold assembled report
  cases assemble source with
  | ok image => rfl
  | error errors => simp [Except.mapError, h]

/-- Texts that two recasts make one are assembled alike, as far as both recasts keep the errors. -/
theorem assembled_of_outline {α : Type} {r u : Recast} {view : AsmError → α}
    (hr : ∀ e, view (r.error e) = view e) (hu : ∀ e, view (u.error e) = view e) {s t : String}
    (hs : Set.InjOn r.name {name | Mentions s.toList name})
    (ht : Set.InjOn u.name {name | Mentions t.toList name})
    (h : r.outline s.toList = u.outline t.toList) : assembled view s = assembled view t := by
  rw [r.assembled_eq hr, u.assembled_eq hu, r.report_assemble hs, u.report_assemble ht, h]

/-! ## The classes of the words of a line -/

/-- The classes of the words of a row. -/
def rowKinds (row : List Char) : List TokenKind :=
  (words row).map TokenKind.ofWord

theorem Line.kinds_tokens (l : Line) : l.tokens.map Token.kind = rowKinds l.text := by
  rw [rowKinds, ← texts_wordsAt l.offset, tokens_eq, tokensAt, List.map_map, List.map_map]
  rfl

/-- A row of words of these classes, of which nothing else is told. -/
def Row.ofKinds (number : Nat) (kinds : List TokenKind) : Row :=
  ⟨number, kinds.map fun kind => ⟨kind, "", ⟨0, 0⟩⟩⟩

/-- Names and lines are replaced; the words and where they stand are forgotten. -/
def Recast.plain (name : String → String) (line : Nat → Nat) : Recast where
  name := name
  word _ := ""
  line := line
  span _ := ⟨0, 0⟩
  through_span _ _ := rfl

namespace Recast

variable (name : String → String) (line : Nat → Nat)

theorem row_plain (l : Line) : (plain name line).row l.row =
    .ofKinds (line l.number) ((l.tokens.map Token.kind).map (plain name line).kind) := by
  rw [Row.ofKinds, List.map_map, List.map_map]
  rfl

theorem kind_plain_id (kind : TokenKind) : (plain id line).kind kind = kind := by
  cases kind <;> rfl

end Recast
end Console16
