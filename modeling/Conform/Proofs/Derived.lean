/-
  Conform/Proofs/Derived.lean
  ===========================
  **Derived object schemas.**  What is derived from an object has its message, its kind and
  what it does with keys that are not declared; it differs in the keys that it declares, or
  in what it does when one of them is absent.  Its number is its own, and no run depends on
  it (`Schema.validatorUpTo_renumbered`).

  An object with fewer keys is allowed fewer references on one path.  That makes no
  difference as long as runs end within their bound (`Context.Bounded`): more room than
  they need is not used (`run_of_bound_le`).
-/
import Conform.Proofs.Determinism
import Conform.Proofs.Keyable
import Conform.Schema.Derive

namespace Conform

/-! ### What is derived -/

namespace Value

/-- Among the members of a set a key is found exactly when it is found among the items. -/
theorem any_foldl_addMember {objects : Nat → Value} {key : Value} (hkey : key.Keyable objects)
    {items acc : List Value} (hacc : ∀ v ∈ acc, v.Keyable objects)
    (hitems : ∀ v ∈ items, v.Keyable objects) :
    (items.foldl addMember acc).any (·.keyEq key) =
      (acc.any (·.keyEq key) || items.any (·.keyEq key)) := by
  induction items generalizing acc with
  | nil => simp
  | cons x rest ih =>
    rw [List.forall_mem_cons] at hitems
    rw [List.foldl_cons, List.any_cons, ← Bool.or_assoc]
    cases hold : acc.any (·.keyEq x) with
    | true =>
      rw [show addMember acc x = acc from if_pos hold, ih hacc hitems.2]
      congr 1
      -- what equals the item equals the member that is there for it
      cases hx : x.keyEq key with
      | false => rw [Bool.or_false]
      | true =>
        obtain ⟨a, ha, hax⟩ := List.any_eq_true.mp hold
        rw [Bool.or_true, List.any_eq_true]
        exact ⟨a, ha, keyEq_trans (hacc a ha) hitems.1 hkey hax hx⟩
    | false =>
      have hadded : ∀ v ∈ acc ++ [x], v.Keyable objects :=
        List.forall_mem_append.mpr ⟨hacc, List.forall_mem_singleton.mpr hitems.1⟩
      rw [show addMember acc x = acc ++ [x] from if_neg (by simp [hold]), ih hadded hitems.2,
        List.any_append, List.any_cons, List.any_nil, Bool.or_false]

theorem any_members {objects : Nat → Value} {key : Value} (hkey : key.Keyable objects)
    {items : List Value} (hitems : ∀ v ∈ items, v.Keyable objects) :
    (members items).any (·.keyEq key) = items.any (·.keyEq key) :=
  (any_foldl_addMember hkey (List.forall_mem_nil _) hitems).trans (Bool.false_or _)

end Value

namespace Schema

section

variable {objects : Nat → Value} {m : Value} {id : Nat} {kind : ObjectKind} {extra : Extra}
  {absent : Absent} {entries : List (Value × Schema)} {keys : List Value}

theorem partialOf_object (id' : Nat) :
    partialOf id' (.schema (.object m id kind extra absent entries)) =
      .ok (.object m id' kind extra .skip entries) := rfl

theorem requiredOf_object (id' : Nat) :
    requiredOf id' (.schema (.object m id kind extra absent entries)) =
      .ok (.object m id' kind extra .reject entries) := rfl

/-- The keys of some list are all declared. -/
def Declared (entries : List (Value × Schema)) (keys : List Value) : Prop :=
  ∀ k ∈ keys, entries.any (·.1.keyEq k) = true

theorem declaredKeys_eq_ok (role : String) (o : ObjectSchema) (hkeys : ∀ k ∈ keys, k.Keyable objects)
    (hdeclared : Declared o.entries keys) : declaredKeys role o keys = .ok (Value.members keys) := by
  have hmembers : Value.toMembers keys = .ok (Value.members keys) :=
    if_pos (Value.allHashable_of fun k hk => (hkeys k hk).isHashable)
  have hknown : (Value.members keys).filter (fun k => !(o.entries.any fun e => e.1.keyEq k)) = [] := by
    refine List.filter_eq_nil_iff.mpr fun k hk => ?_
    rw [hdeclared k ((Value.members_of_toMembers hmembers).2.1 k hk)]
    exact Bool.false_ne_true
  rw [declaredKeys, hmembers]
  simp only [bind, Except.bind, hknown]
  rfl

variable (hentries : ∀ e ∈ entries, e.1.Keyable objects) (hkeys : ∀ k ∈ keys, k.Keyable objects)
  (hdeclared : Declared entries keys)

include hentries hkeys hdeclared

/-- Declared keys can be picked: the object with these keys alone. -/
theorem pickFrom_object (id' : Nat) :
    pickFrom id' (.schema (.object m id kind extra absent entries)) keys =
      .ok (.object m id' kind extra absent (entries.filter fun e => keys.any (·.keyEq e.1))) := by
  have hkept : entries.filter (fun e => (Value.members keys).any (·.keyEq e.1)) =
      entries.filter fun e => keys.any (·.keyEq e.1) :=
    List.filter_congr fun e he => Value.any_members (hentries e he) hkeys
  rw [← hkept]
  simp only [pickFrom, objectIn, bind, Except.bind, ObjectSchema.toSchema,
    declaredKeys_eq_ok "Pick" ⟨m, kind, extra, absent, entries⟩ hkeys hdeclared]

/-- Declared keys can be omitted: the object with the other keys. -/
theorem omitFrom_object (id' : Nat) :
    omitFrom id' (.schema (.object m id kind extra absent entries)) keys =
      .ok (.object m id' kind extra absent (entries.filter fun e => !keys.any (·.keyEq e.1))) := by
  have hkept : entries.filter (fun e => !(Value.members keys).any (·.keyEq e.1)) =
      entries.filter fun e => !keys.any (·.keyEq e.1) :=
    List.filter_congr fun e he => congrArg not (Value.any_members (hentries e he) hkeys)
  rw [← hkept]
  simp only [omitFrom, objectIn, bind, Except.bind, ObjectSchema.toSchema,
    declaredKeys_eq_ok "Omit" ⟨m, kind, extra, absent, entries⟩ hkeys hdeclared]

end

end Schema

/-! ### Numbers and bounds -/

section

variable {ctx : Context} {m m' : Value} {id id' : Nat} {kind kind' : ObjectKind} {extra extra' : Extra}
  {absent absent' : Absent} {entries entries' : List (Value × Schema)}

theorem Schema.validatorUpTo_renumbered (n : Nat) :
    (object m id kind extra absent entries).validatorUpTo n =
      (object m id' kind extra absent entries).validatorUpTo n := by
  rw [validatorUpTo_eq, validatorUpTo_eq]
  rfl

/-- How many references may lie on one path depends on the schemas of the declared keys alone. -/
theorem Context.bound_object (x : Value) :
    ctx.bound (.object m id kind extra absent entries) x =
      ctx.bound (.object m' id' kind' extra' absent' entries) x := by
  simp only [bound, schemas, Schema.roomOfAll, Schema.lazyCountAll, Schema.room, Schema.lazyCount]

theorem Schema.run_renumbered :
    (object m id kind extra absent entries).run = (object m id' kind extra absent entries).run := by
  funext ctx d
  rw [run, run, Context.bound_object, validatorUpTo_renumbered]

theorem Context.bound_le_of_sublist (h : entries'.Sublist entries) (x : Value) :
    ctx.bound (.object m' id' kind' extra' absent' entries') x ≤
      ctx.bound (.object m id kind extra absent entries) x := by
  have hschemas := h.map fun e : Value × Schema => e.2
  have hroom : Schema.total (Schema.room ctx.host.depth) _ ≤ _ := Schema.total_sublist hschemas
  have hlazy : Schema.total Schema.lazyCount _ ≤ _ := Schema.total_sublist hschemas
  simp only [bound, schemas, Schema.roomOfAll, Schema.lazyCountAll, Schema.room, Schema.lazyCount,
    Schema.roomOfEntries_eq, Schema.lazyCountEntries_eq]
  refine Nat.mul_le_mul ?_ ?_ <;> omega

/-! ### Room to spare -/

/-- Runs of a schema from a world end within their bound: what has been found is among what is defined,
references with one number are one reference, and no schema leads back to itself on one value. -/
structure Context.Bounded (ctx : Context) (s : Schema) (w : World) : Prop where
  found : ∀ p ∈ w.resolved, p.2 ∈ ctx.definitions.schemas
  apart : Schema.NumberedApart (ctx.Reaches w.resolved s)
  descends : ctx.Descends w.resolved s
  bounds : ctx.Bounds (ctx.Reaches w.resolved s)

/-- A run that is allowed more references on a path than its bound is the same run. -/
theorem run_of_bound_le {s : Schema} {x : Value} {w : World} {n : Nat} (h : ctx.Bounded s w)
    (hn : ctx.bound s x ≤ n) : s.validatorUpTo n ctx (.fresh x) w = s.run ctx (.fresh x) w := by
  have hclosed := ctx.closed_of_pins h.apart (fun _ _ ht hc => .part ht hc)
    (ctx.leads_reaches w.resolved s)
  have hneed : ctx.need s Schema.lazyCost [] [] x ≤ ctx.bound s x := by
    have hbound : ctx.bound s x =
        (x.depth + ctx.room s + 1) * (Schema.total Schema.lazyCost (ctx.nodes s) + 1) := by
      rw [Context.bound, Schema.lazyCountAll_eq]
      rfl
    rw [hbound, Nat.add_mul (x.depth + ctx.room s) 1]
    simp only [Context.need, Schema.total_nil, Nat.sub_zero]
    omega
  exact eq_of_exact (exact_of_unrolled h.found h.descends h.bounds (fun _ _ _ ht => hclosed.keeps ht)
    (fun _ _ _ _ ht hr => gives_force_of_pins ht hr) (Schema.unrolled_validatorUpTo hn s)
    (Schema.unrolled_validatorUpTo (Nat.le_refl _) s) .start hneed hneed)
    fun _ _ _ _ => rfl

/-- With some of the keys, an object leads nowhere else. -/
theorem Context.Reaches.of_subset {found : Found} (h : entries' ⊆ entries) {t : Schema}
    (ht : ctx.Reaches found (.object m' id' kind' extra' absent' entries') t) :
    t = .object m' id' kind' extra' absent' entries' ∨
      ctx.Reaches found (.object m id kind extra absent entries) t := by
  refine ht.closed (Q := fun t => t = .object m' id' kind' extra' absent' entries' ∨
    ctx.Reaches found (.object m id kind extra absent entries) t) (.inl rfl)
    (fun r c hr hc => .inr ?_) fun _ _ _ r hr hbehind => .inr ?_
  · rcases hr with rfl | hr
    · obtain ⟨e, he, rfl⟩ := List.mem_map.mp hc
      exact .part .start (List.mem_map_of_mem (h he))
    · exact .part hr hc
  · rcases hr with hr | hr
    · cases hr
    · exact .reference hr hbehind

/-- Runs of an object with some of the keys end within their bound if those of the object do. -/
theorem Context.Bounded.of_subset {w : World} (h : ctx.Bounded (.object m id kind extra absent entries) w)
    (hsub : entries' ⊆ entries) :
    ctx.Bounded (.object m' id' kind' extra' absent' entries') w where
  found := h.found
  apart _ _ _ _ _ ht ht' := by
    rcases Context.Reaches.of_subset hsub ht with heq | ht
    · cases heq
    rcases Context.Reaches.of_subset hsub ht' with heq | ht'
    · cases heq
    exact h.apart _ _ _ _ _ ht ht'
  descends := by
    refine ⟨fun {t} ht hloop => ?_, fun {t} ht hdefault hloop => ?_⟩
    · rcases Context.Reaches.of_subset hsub ht with rfl | ht
      · -- an object runs its parts on parts of the value only
        obtain ⟨r, hr, -⟩ := Relation.TransGen.head'_iff.mp hloop
        cases hr with
        | inner hc => cases hc
      · exact h.descends.stays ht hloop
    · rcases Context.Reaches.of_subset hsub ht with rfl | ht
      · obtain ⟨_, _, _, heq⟩ := hdefault
        cases heq
      · exact h.descends.defaults ht hdefault hloop
  bounds _ _ _ ht := by
    rcases Context.Reaches.of_subset hsub ht with heq | ht
    · cases heq
    · exact h.bounds _ _ _ ht

/-- An object with fewer keys does the same when it is allowed the references of the one with all. -/
theorem Context.Bounded.run_of_sublist {w : World}
    (h : ctx.Bounded (.object m id kind extra absent entries) w) (hsub : entries'.Sublist entries)
    (x : Value) :
    (Schema.object m' id' kind' extra' absent' entries').validatorUpTo
        (ctx.bound (.object m id kind extra absent entries) x) ctx (.fresh x) w =
      (Schema.object m' id' kind' extra' absent' entries').run ctx (.fresh x) w :=
  run_of_bound_le (h.of_subset hsub.subset) (Context.bound_le_of_sublist hsub x)

/-! ### Records of primitive values -/

/-- An object whose keys hold primitive values leads to their schemas, and no further. -/
theorem Context.Reaches.of_primitives {found : Found}
    (hprimitive : ∀ e ∈ entries, ∃ p, e.2 = .primitive .null p) {t : Schema}
    (ht : ctx.Reaches found (.object m id kind extra absent entries) t) :
    t = .object m id kind extra absent entries ∨ ∃ p, t = .primitive .null p := by
  refine ht.closed (Q := fun t => t = .object m id kind extra absent entries ∨
    ∃ p, t = .primitive .null p) (.inl rfl) ?_ ?_
  · rintro _ c (rfl | ⟨p, rfl⟩) hc
    · obtain ⟨e, he, rfl⟩ := List.mem_map.mp hc
      exact .inr (hprimitive e he)
    · cases hc
  · rintro m id getter t (h | ⟨p, h⟩) <;> cases h

/-- Runs of such an object end, and they call nothing. -/
theorem Context.bounded_of_primitives {w : World}
    (hfound : ∀ p ∈ w.resolved, p.2 ∈ ctx.definitions.schemas) (hconfig : ctx.Steady ctx.config.message)
    (hprimitive : ∀ e ∈ entries, ∃ p, e.2 = .primitive .null p) :
    ctx.Bounded (.object .null id kind extra absent entries) w ∧
      ctx.PureCalls (ctx.Reaches w.resolved (.object .null id kind extra absent entries)) := by
  have hcases {t : Schema} (ht : ctx.Reaches w.resolved (.object .null id kind extra absent entries) t) :=
    Context.Reaches.of_primitives hprimitive ht
  refine ⟨⟨hfound, fun _ _ _ _ _ ht => ?_, ⟨fun ht hloop => ?_, fun ht hdefault => ?_⟩,
    fun _ _ _ ht => ?_⟩, ⟨fun ht callee hcallee => ?_, hconfig⟩⟩
  · rcases hcases ht with h | ⟨p, h⟩ <;> cases h
  · obtain ⟨r, hr, -⟩ := Relation.TransGen.head'_iff.mp hloop
    rcases hcases ht with rfl | ⟨p, rfl⟩ <;> cases hr with
      | inner hc => cases hc
  · obtain ⟨_, _, _, rfl⟩ := hdefault
    rcases hcases ht with h | ⟨p, h⟩ <;> cases h
  · rcases hcases ht with h | ⟨p, h⟩ <;> cases h
  · have hnull : callee = .null := by
      rcases hcases ht with rfl | ⟨p, rfl⟩ <;> exact List.mem_singleton.mp hcallee
    rw [hnull]
    exact fun _ _ _ => rfl

end

end Conform
