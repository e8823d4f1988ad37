/-
  Conform/Proofs/Mild.lean
  ========================
  **Operations on values break no assertion.**  There are two assertions about
  issues: that a dataset which is marked as failed has some, and that a report
  is made of some.  Whatever else stops an operation on values is a fault of
  another kind (`Mild`): this holds of comparing values, showing them, converting
  them, putting a finding into words and writing into mappings.
-/
import Conform.Proofs.Data
import Conform.Result
import Conform.Validator.Container
import Conform.Validator.Operator

namespace Conform

/-- What an operation stops with is no broken assertion. -/
def Mild {α : Type} (r : Except Fault α) : Prop :=
  ∀ f, r = .error f → f.kind ≠ .assertion

section

variable {α β : Type}

theorem mild_ok (a : α) : Mild (.ok a : Except Fault α) := by
  intro f hf
  cases hf

theorem mild_error {f : Fault} (h : f.kind ≠ .assertion) : Mild (.error f : Except Fault α) := by
  intro g hg
  cases hg
  exact h

theorem Mild.bind {r : Except Fault α} {k : α → Except Fault β} (hr : Mild r)
    (hk : ∀ a, Mild (k a)) : Mild (r >>= k) := by
  intro f hf
  cases r with
  | error g =>
    cases hf
    exact hr _ rfl
  | ok a => exact hk a f hf

theorem Mild.map {r : Except Fault α} (hr : Mild r) (k : α → β) : Mild (r.map k) := by
  intro f hf
  cases r with
  | error g =>
    cases hf
    exact hr _ rfl
  | ok a => cases hf

theorem mild_mapM {k : α → Except Fault β} (hk : ∀ a, Mild (k a)) (xs : List α) :
    Mild (xs.mapM k) := by
  induction xs with
  | nil => exact mild_ok _
  | cons x rest ih =>
    rw [List.mapM_cons]
    exact (hk x).bind fun _ => ih.bind fun _ => mild_ok _

theorem mild_foldlM {k : β → α → Except Fault β} (hk : ∀ b a, Mild (k b a)) (xs : List α) (b : β) :
    Mild (xs.foldlM k b) := by
  induction xs generalizing b with
  | nil => exact mild_ok _
  | cons x rest ih =>
    rw [List.foldlM_cons]
    exact (hk b x).bind ih

end

/-! ### Texts -/

theorem mild_integerText (n : Int) : Mild (integerText n) := by
  unfold integerText
  split
  · exact mild_ok _
  · exact mild_error (by decide)

theorem EnumValue.mild_quoted (v : EnumValue) : Mild v.quoted := by
  cases v with
  | int n => exact mild_integerText n
  | _ => exact mild_ok _

theorem Scalar.mild_quoted (s : Scalar) : Mild s.quoted := by
  cases s with
  | int flavor n => exact mild_integerText n
  | member m =>
    intro f hf
    simp only [Scalar.quoted] at hf
    split at hf
    · cases hf
    · next g hg =>
      cases hf
      exact m.value.mild_quoted _ hg
  | _ => exact mild_ok _

theorem Response.mild_result {α : Type} (r : Response α) : Mild r.result := by
  cases r with
  | gives a => exact mild_ok a
  | refuses => exact mild_error (by decide)
  | fails => exact mild_error (by decide)
  | unsupported => exact mild_error (by decide)

theorem Scalar.mild_text (s : Scalar) : Mild s.text := by
  unfold Scalar.text
  split
  case h_7 m =>
    split
    · exact m.value.mild_quoted
    · exact mild_ok _
  case h_8 c => exact c.text.mild_result
  case h_10 => exact Scalar.mild_quoted _
  all_goals exact mild_ok _

namespace Value

theorem mild_quotedItems {xs : List Value} (h : ∀ x ∈ xs, Mild x.quoted) :
    Mild (quotedItems xs) := by
  induction xs with
  | nil => exact mild_ok _
  | cons x rest ih =>
    rw [List.forall_mem_cons] at h
    rw [quotedItems]
    exact h.1.bind fun _ => (ih h.2).bind fun _ => mild_ok _

theorem mild_quotedEntries {es : List (Value × Value)}
    (h : ∀ e ∈ es, Mild e.1.quoted ∧ Mild e.2.quoted) : Mild (quotedEntries es) := by
  induction es with
  | nil => exact mild_ok _
  | cons e rest ih =>
    rw [List.forall_mem_cons] at h
    rw [quotedEntries]
    exact h.1.1.bind fun _ => h.1.2.bind fun _ => (ih h.2).bind fun _ => mild_ok _

theorem mild_quoted (v : Value) : Mild v.quoted := by
  induction v using itemInduction with
  | scalar id s => exact s.mild_quoted
  | list id flavor items ih => exact (mild_quotedItems ih).bind fun _ => mild_ok _
  | tuple id items ih => exact (mild_quotedItems ih).bind fun _ => mild_ok _
  | set id frozen items ih => exact (mild_quotedItems ih).bind fun _ => mild_ok _
  | mapping id kind entries ih => exact (mild_quotedEntries ih).bind fun _ => mild_ok _

theorem mild_text (v : Value) : Mild v.text := by
  cases v with
  | scalar id s => exact s.mild_text
  | mapping id kind entries =>
    cases kind with
    | view =>
      have hentries := mild_quotedEntries fun e (_ : e ∈ entries) =>
        ⟨e.1.mild_quoted, e.2.mild_quoted⟩
      exact hentries.bind fun _ => mild_ok _
    | _ => exact mild_quoted _
  | _ => exact mild_quoted _

theorem mild_isTrue (v : Value) : Mild v.isTrue := by
  cases v with
  | scalar id s =>
    cases s with
    | object c => exact c.truth.mild_result
    | _ => exact mild_ok _
  | _ => exact mild_ok _

/-! ### Comparisons -/

theorem mild_eq (x y : Value) : Mild (x.eq y) := by
  intro f hf
  rw [fault_of_eq hf]
  decide

theorem mild_matches? (x y : Value) : Mild (x.matches? y) := by
  unfold matches?
  split
  · exact mild_ok _
  · exact mild_eq x y

theorem mild_strictEq (x y : Value) : Mild (x.strictEq y) := by
  unfold strictEq
  repeat' split
  all_goals first | exact mild_ok _ | exact mild_eq x y

end Value

theorem Scalar.mild_relate (r : Relation) (a b : Scalar) : Mild (a.relate r b) := by
  unfold Scalar.relate
  repeat' split
  all_goals first | exact mild_ok _ | exact mild_error (by decide)

namespace Value

theorem mild_relateItems {r : Relation} {xs : List Value}
    (h : ∀ x ∈ xs, ∀ y, Mild (x.relate r y)) (ys : List Value) : Mild (relateItems r xs ys) := by
  induction xs generalizing ys with
  | nil => exact mild_ok _
  | cons x rest ih =>
    rw [List.forall_mem_cons] at h
    cases ys with
    | nil => exact mild_ok _
    | cons y ys =>
      unfold relateItems
      dsimp only
      split
      · exact ih h.2 ys
      · exact h.1 y
      · next f hf => exact mild_error (mild_matches? x y f hf)

theorem mild_relate (r : Relation) (x y : Value) : Mild (x.relate r y) := by
  induction x using itemInduction generalizing y with
  | scalar id s =>
    cases y with
    | scalar id' t => exact s.mild_relate r t
    | _ => exact mild_error (by decide)
  | list id flavor xs ih =>
    cases y with
    | list id' flavor' ys => exact mild_relateItems (fun x hx => ih x hx) ys
    | _ => exact mild_error (by decide)
  | tuple id xs ih =>
    cases y with
    | tuple id' ys => exact mild_relateItems (fun x hx => ih x hx) ys
    | _ => exact mild_error (by decide)
  | set id frozen xs ih =>
    cases y with
    | set id' frozen' ys => exact mild_ok _
    | _ => exact mild_error (by decide)
  | mapping id kind xs ih => exact mild_error (by decide)

end Value

theorem mild_ifComparable {r : Except Fault Bool} (h : Mild r) : Mild (ifComparable r) := by
  unfold ifComparable
  split
  · next f =>
    split
    · exact mild_ok _
    · exact h
  · exact h

/-! ### Conversions -/

namespace Value

theorem mild_readFloat (s : List Char) : Mild (readFloat s) := by
  unfold readFloat
  split
  · exact mild_ok _
  · exact mild_error (by decide)

theorem mild_readInt (s : List Char) : Mild (readInt s) := by
  unfold readInt
  split
  · exact mild_ok _
  · exact mild_error (by decide)

theorem mild_floatOfInt (n : Int) : Mild (floatOfInt n) := by
  unfold floatOfInt
  split
  · exact mild_ok _
  · exact mild_error (by decide)

theorem mild_toFloat (v : Value) : Mild v.toFloat := by
  unfold toFloat
  repeat' split
  all_goals first
    | exact mild_ok _
    | exact mild_error (by decide)
    | exact mild_floatOfInt _
    | exact mild_readFloat _
    | exact Response.mild_result _

theorem mild_wholeFloat (x : Binary64) : Mild (wholeFloat x) := by
  unfold wholeFloat
  split
  · exact mild_ok _
  · exact mild_error (by decide)

theorem mild_momentAfterEpoch (n : Int) : Mild (momentAfterEpoch n) := by
  unfold momentAfterEpoch
  split
  · exact mild_ok _
  · exact mild_error (by decide)

theorem mild_momentOfFloat (x : Binary64) : Mild (momentOfFloat x) := by
  unfold momentOfFloat
  repeat' split
  all_goals first | exact mild_error (by decide) | exact mild_momentAfterEpoch _

theorem mild_readFormats (s : List Char) (formats : List String) :
    Mild (readFormats s formats) := by
  induction formats with
  | nil => exact mild_ok _
  | cons format rest ih =>
    unfold readFormats
    split
    all_goals first | exact mild_ok _ | exact ih | exact mild_error (by decide)

theorem mild_readMoment (formats : List String) (s : String) : Mild (readMoment formats s) := by
  unfold readMoment
  refine (mild_readFormats _ formats).bind fun d? => ?_
  repeat' split
  all_goals first | exact mild_ok _ | exact mild_error (by decide)

end Value

namespace Target

open Value

theorem mild_decodeText (data : List UInt8) : Mild (decodeText data) := by
  unfold decodeText
  split
  · exact mild_ok _
  · exact mild_error (by decide)

theorem mild_toText (v : Value) : Mild (toText v) := by
  unfold toText
  split
  · split
    · exact mild_error (by decide)
    · exact (mild_decodeText _).map _
    · exact (mild_decodeText _).map _
    · exact (Scalar.mild_text _).map _
  · exact (mild_text _).map _

theorem mild_readNumber (s : String) : Mild (readNumber s) := by
  unfold readNumber
  split
  · exact mild_ok _
  · split
    · exact mild_ok _
    · exact (mild_readFloat _).map _

theorem mild_toNumber (v : Value) : Mild (toNumber v) := by
  unfold toNumber
  split
  · split
    · exact mild_ok _
    · exact mild_ok _
    · exact mild_readNumber _
    · exact mild_error (by decide)
    · exact (mild_toFloat _).map _
  · exact mild_error (by decide)

theorem mild_readInteger (s : String) : Mild (readInteger s) := by
  unfold readInteger
  split
  · exact mild_ok _
  · exact (mild_readInt _).map _

theorem mild_toInteger (v : Value) : Mild (toInteger v) := by
  unfold toInteger
  split
  · split
    · exact mild_ok _
    · exact mild_error (by decide)
    · exact mild_error (by decide)
    · exact (mild_wholeFloat _).map _
    · exact mild_readInteger _
    · exact (Scalar.mild_text _).bind fun _ => (mild_readInt _).map _
  · exact (mild_text _).bind fun _ => (mild_readInt _).map _

theorem mild_toMoment (formats : List String) (v : Value) : Mild (toMoment formats v) := by
  unfold toMoment
  split
  · exact (mild_momentAfterEpoch _).map _
  · split
    · split
      · exact mild_error (by decide)
      · exact mild_error (by decide)
      · exact (mild_momentAfterEpoch _).map _
      · exact (mild_momentOfFloat _).map _
      · exact mild_ok _
      · exact (mild_readMoment _ _).map _
      · exact (Scalar.mild_text _).bind fun _ => (mild_readMoment _ _).map _
    · exact (mild_text _).bind fun _ => (mild_readMoment _ _).map _

theorem mild_convert (t : Target) (v : Value) : Mild (t.convert v) := by
  cases t with
  | string => exact mild_toText v
  | number => exact mild_toNumber v
  | boolean => exact (mild_isTrue v).map _
  | bigInt => exact mild_toInteger v
  | date formats => exact mild_toMoment formats v

theorem mild_coerce? (t : Target) (v : Value) : Mild (t.coerce? v) := by
  unfold coerce?
  split
  · exact mild_ok _
  · split
    · exact mild_ok _
    · next f hf =>
      split
      · exact mild_ok _
      · exact mild_error (mild_convert t v f hf)

end Target

/-! ### Making values -/

namespace Value

theorem mild_items? (v : Value) : Mild v.items? := by
  unfold items?
  split
  all_goals first | exact mild_ok _ | exact mild_error (by decide)

theorem mild_toMembers (items : List Value) : Mild (toMembers items) := by
  unfold toMembers
  split
  · exact mild_ok _
  · exact mild_error (by decide)

theorem mild_truncateFloat (x : Binary64) : Mild (truncateFloat x) := by
  unfold truncateFloat
  split
  · exact mild_ok _
  · split <;> exact mild_error (by decide)

theorem mild_truncateDecimal (d : Decimal) : Mild (truncateDecimal d) := by
  unfold truncateDecimal
  split
  · exact mild_ok _
  · split <;> exact mild_error (by decide)

theorem mild_convertToInt (v : Value) : Mild v.convertToInt := by
  unfold convertToInt
  split
  · exact mild_ok _
  · split
    · split
      · exact mild_ok _
      · exact mild_truncateFloat _
      · exact mild_truncateDecimal _
      · exact mild_readInt _
      · exact mild_readInt _
      · exact mild_readInt _
      · exact mild_error (by decide)
    · exact mild_error (by decide)

theorem mild_convertToComplex (v : Value) : Mild v.convertToComplex := by
  unfold convertToComplex
  split
  · exact mild_ok _
  · exact mild_error (by decide)
  · exact mild_error (by decide)
  · exact (mild_toFloat _).map _

theorem mild_zeroBytes (n : Int) : Mild (zeroBytes n) := by
  unfold zeroBytes
  split
  · exact mild_error (by decide)
  · split
    · exact mild_error (by decide)
    · exact mild_ok _

theorem mild_convertToBytes (v : Value) : Mild v.convertToBytes := by
  unfold convertToBytes
  split
  · exact mild_ok _
  · exact mild_ok _
  · exact mild_error (by decide)
  · exact mild_zeroBytes _
  · split
    · exact mild_zeroBytes _
    · refine (mild_items? _).bind fun items => mild_mapM (fun x => ?_) items
      split
      · split
        · exact mild_ok _
        · exact mild_error (by decide)
      · exact mild_error (by decide)

theorem mild_toEntry (v : Value) : Mild v.toEntry := by
  unfold toEntry
  refine (mild_items? v).bind fun items => ?_
  split
  · split
    · exact mild_ok _
    · exact mild_error (by decide)
  · exact mild_error (by decide)

theorem mild_convertToEntries (v : Value) : Mild v.convertToEntries := by
  unfold convertToEntries
  split
  · exact mild_ok _
  · exact (mild_items? v).bind fun items => (mild_mapM mild_toEntry items).bind fun _ => mild_ok _

end Value

namespace ValueType

open Value

theorem mild_constructEmpty (t : ValueType) : Mild t.constructEmpty := by
  cases t
  all_goals first | exact mild_ok _ | exact mild_error (by decide)

theorem mild_memberFor (e : Enumeration) (v : Value) : Mild (memberFor e v) := by
  unfold memberFor
  dsimp only
  split
  · exact mild_ok _
  · split <;> exact mild_error (by decide)

/-- What a conversion of a value makes, unless the value is taken as it is. -/
theorem mild_kept {α : Type} {c : Bool} {v : Value} {r : Except Fault α} (hr : Mild r)
    (make : α → Value) : Mild (if c then .ok v else r.map make) := by
  split
  · exact mild_ok _
  · exact hr.map make

theorem mild_membersOf {v : Value} (frozen : Bool) :
    Mild (v.items?.bind fun items => (toMembers items).map (Value.ofSet frozen)) :=
  (mild_items? v).bind fun items => (mild_toMembers items).map _

theorem mild_constructFrom (t : ValueType) (v : Value) : Mild (t.constructFrom v) := by
  cases t with
  | bool => exact (mild_isTrue v).map _
  | int => exact (mild_convertToInt v).map _
  | derivedInt => exact (mild_convertToInt v).map _
  | float => exact mild_kept (mild_toFloat v) _
  | derivedFloat => exact (mild_toFloat v).map _
  | complex => exact mild_kept (mild_convertToComplex v) _
  | str => exact mild_kept (mild_text v) _
  | derivedStr => exact (mild_text v).map _
  | sentinel => exact (mild_text v).map _
  | bytes => exact mild_kept (mild_convertToBytes v) _
  | byteArray => exact (mild_convertToBytes v).map _
  | tuple => exact mild_kept (mild_items? v) _
  | list => exact (mild_items? v).map _
  | derivedList => exact (mild_items? v).map _
  | set => exact mild_membersOf false
  | frozenSet =>
    simp only [constructFrom]
    split
    · exact mild_ok _
    · exact mild_membersOf true
  | dict => exact (mild_convertToEntries v).map _
  | orderedDict => exact (mild_convertToEntries v).map _
  | mappingView =>
    simp only [constructFrom]
    split
    · exact mild_ok _
    · exact mild_error (by decide)
  | decimal =>
    simp only [constructFrom]
    split
    · exact mild_ok _
    · exact mild_ok _
    · split
      · exact mild_ok _
      · exact mild_error (by decide)
    · exact mild_error (by decide)
    · exact mild_error (by decide)
    · exact mild_error (by decide)
  | time =>
    simp only [constructFrom]
    split
    · split
      · exact mild_ok _
      · exact mild_error (by decide)
    · exact mild_error (by decide)
  | duration =>
    simp only [constructFrom]
    split
    · split
      · exact mild_ok _
      · exact mild_error (by decide)
    · exact mild_error (by decide)
  | enumeration e => exact mild_memberFor e v
  | type => exact mild_ok _
  | _ => exact mild_error (by decide)

theorem mild_construct (t : ValueType) (arguments : List Value) : Mild (t.construct arguments) := by
  unfold construct
  split
  · exact mild_constructEmpty t
  · exact mild_constructFrom t _
  · exact mild_error (by decide)

end ValueType

/-! ### Messages -/

namespace Message

theorem mild_lookup (mentions : Mentions) (name : List Char) : Mild (lookup mentions name) := by
  unfold lookup
  dsimp only
  split
  · next f hf =>
    refine mild_error ?_
    split at hf
    · cases hf
      decide
    · split at hf
      all_goals first | cases hf; done | cases hf; decide
  · exact mild_ok _
  · split
    · exact mild_ok _
    · exact mild_error (by decide)
  · exact mild_error (by decide)
  · exact mild_error (by decide)

theorem mild_formatted (v : Value) (format : List Char) : Mild (formatted v format) := by
  unfold formatted
  split
  · exact v.mild_text
  · split
    · split
      all_goals first | exact mild_ok _ | exact mild_error (by decide)
    · exact mild_error (by decide)

theorem Field.mild_render (mentions : Mentions) (f : Field) : Mild (f.render mentions) := by
  unfold Field.render
  refine (mild_lookup mentions f.name).bind fun v => ?_
  split
  · refine v.mild_quoted.bind fun s => ?_
    split
    · exact mild_ok _
    · exact mild_error (by decide)
  · exact mild_formatted v _

theorem Piece.mild_render (mentions : Mentions) (p : Piece) : Mild (p.render mentions) := by
  cases p with
  | char c => exact mild_ok _
  | field body =>
    simp only [Piece.render]
    split
    · exact Field.mild_render mentions _
    · exact mild_error (by decide)
  | broken => exact mild_error (by decide)

theorem mild_render (template : String) (mentions : Mentions) : Mild (render template mentions) := by
  unfold render
  dsimp only
  split
  · exact mild_foldlM (fun _ p => (p.mild_render mentions).map _) _ _
  · exact mild_ok _

theorem mild_translate (t : Translations) (message : String) (language : Value) :
    Mild (t.translate message language) := by
  unfold Translations.translate
  refine language.mild_isTrue.bind fun chosen => ?_
  split
  · exact mild_ok _
  · split
    · exact mild_ok _
    · exact mild_error (by decide)
    · split <;> exact mild_error (by decide)

theorem mild_default (t : Translations) (language : Value) (key : String) (mentions : Mentions) :
    Mild (Message.default t language key mentions) := by
  unfold Message.default
  split
  · exact mild_error (by decide)
  · exact (mild_translate t _ language).bind fun _ => mild_render _ mentions

end Message

/-! ### Findings and outputs -/

theorem Check.mild_finding (names : TypeNames) (c : Check) (name : String) (v : Value) :
    Mild (c.finding names name v) := by
  have hreceived : Mild (c.received names v) := by
    unfold Check.received
    split
    · split <;> exact mild_ok _
    · split
      · exact mild_ok _
      · exact v.mild_quoted
    all_goals first | exact v.mild_quoted | exact mild_ok _
  exact hreceived.bind fun _ => mild_ok _

namespace Validator

theorem mild_amongStrictly (v : Value) (xs : List Value) : Mild (amongStrictly v xs) := by
  induction xs with
  | nil => exact mild_ok _
  | cons x rest ih =>
    unfold amongStrictly
    refine (v.mild_strictEq x).bind fun equal => ?_
    split
    · exact mild_ok _
    · exact ih

theorem mild_belongs (e : Enumeration) (v : Value) : Mild (belongs e v) := by
  unfold belongs
  split
  · split
    · exact mild_ok _
    · exact mild_amongStrictly _ _
  · exact mild_amongStrictly _ _

theorem mild_sizeFinding? (l : Label) (limits : Limits) (v : Value) (size : Nat) :
    Mild (sizeFinding? l limits v size) := by
  have found (type : String) (limit : Limit) :
      Mild ((sizeFinding l v type limit size).map some) :=
    (limit.requirement.mild_text.bind fun _ => mild_ok _).map some
  have most : Mild (sizeFinding? l ⟨none, limits.most⟩ v size) := by
    unfold sizeFinding?
    dsimp only
    split
    · split
      · exact found _ _
      · exact mild_ok _
    · exact mild_ok _
  unfold sizeFinding?
  dsimp only
  split
  · split
    · exact found _ _
    · exact most
  · exact most

theorem mild_mergeAll? (first : Value) (rest : List Value) : Mild (mergeAll? first rest) := by
  induction rest generalizing first with
  | nil => exact mild_ok _
  | cons b rest ih =>
    have hmerge : Mild (merge? first b) := by
      unfold merge?
      split
      · exact mild_ok _
      · exact (first.mild_strictEq b).bind fun _ => mild_ok _
    unfold mergeAll?
    refine hmerge.bind fun merged => ?_
    split
    · exact ih _
    · exact mild_ok _

end Validator

namespace Borrowed

theorem mild_remove (b : Borrowed) (key : Value) : Mild (b.remove key) := by
  unfold remove
  split
  · exact mild_error (by decide)
  · split
    · exact mild_ok _
    · exact mild_error (by decide)

theorem mild_write (b : Borrowed) (key v : Value) : Mild (b.write key v) := by
  unfold write
  split
  · exact mild_ok _
  · exact mild_error (by decide)

theorem eq_decimal_of_keeps {key newKey : Value} {fault : Fault}
    (h : keeps key newKey = .error fault) : fault = .decimal := by
  unfold keeps at h
  split at h
  · exact Value.fault_of_eq h
  · cases h

/-- Replacing an entry fails where the keys cannot be compared, where the old one cannot be removed, or
where nothing can be written under the new one. -/
theorem cases_of_replace_fault {b : Borrowed} {key newKey newValue : Value} {fault : Fault}
    (h : (b.replace key newKey newValue).2 = some fault) :
    keeps key newKey = .error fault ∨ b.own.remove key = .error fault ∨
      ∃ c : Borrowed, c.write newKey newValue = .error fault := by
  unfold replace at h
  dsimp only at h
  split at h
  · next hremoved =>
    cases h
    split at hremoved
    · cases hremoved
    · exact .inr (.inl hremoved)
    · next hkeeps =>
      cases hremoved
      exact .inl hkeeps
  · next c _ =>
    split at h
    · cases h
    · next hwrite =>
      cases h
      exact .inr (.inr ⟨c, hwrite⟩)

/-- An entry that cannot be replaced is no broken assertion. -/
theorem kind_of_replace {b b' : Borrowed} {key newKey newValue : Value} {f : Fault}
    (h : b.replace key newKey newValue = (b', some f)) : f.kind ≠ .assertion := by
  rcases cases_of_replace_fault (congrArg Prod.snd h) with hkeeps | hremove | ⟨c, hwrite⟩
  · rw [eq_decimal_of_keeps hkeeps]
    decide
  · exact mild_remove _ _ _ hremove
  · exact mild_write _ _ _ _ hwrite

end Borrowed

/-! ### Reports -/

theorem Issue.mild_pathText (path : List Value) : Mild (pathText path) := by
  induction path with
  | nil => exact mild_ok _
  | cons key rest ih => exact key.mild_quoted.bind fun _ => ih.bind fun _ => mild_ok _

theorem Issue.mild_text (i : Issue) : Mild i.text :=
  (mild_pathText i.path).bind fun _ => i.message.mild_text.bind fun _ => mild_ok _

/-- A report of some issues breaks no assertion. -/
theorem Report.mild_ofIssues {issues : List Issue} (h : issues ≠ []) : Mild (ofIssues issues) := by
  have hlines (is : List Issue) : Mild (lines is) := by
    induction is with
    | nil => exact mild_ok _
    | cons i rest ih => exact i.mild_text.bind fun _ => ih.bind fun _ => mild_ok _
  unfold ofIssues
  rw [dif_neg h]
  exact (hlines issues).map _

end Conform
