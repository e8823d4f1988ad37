/-
  Conform/Proofs/Preparation.lean
  ===============================
  **What the compiler keeps.**  With an object all objects are prepared that stand under its keys,
  as far as nothing but transparent wrappers is between them (`Schema.Prepares`).  What the compiler
  keeps is closed under this: with every object it keeps those that are prepared with it.

  A compiler at work only adds to what it keeps (`Workshop.Grown`), each object at most once and
  under its own number (`Cache.Tidy`).  How much is added is said by a set of schemas
  (`Compilation.Adds`): for an object that is fetched, all that are prepared with it; for one that is
  compiled anew, all but the object itself.
-/
import Conform.Proofs.FastPath
import Mathlib.Data.List.Nodup
import Mathlib.Data.Set.Insert

namespace Conform

/-! ### Objects that are prepared together -/

namespace Schema

/-- The schema behind the transparent wrappers of a schema. -/
def unveiled : Schema → Schema
  | .constraint _ _ _ _ inner | .wrapper _ _ inner => inner.unveiled
  | s => s

/-- The object must not be looked at closely, so it is run as it is. -/
def isGuarded : Schema → Bool
  | .object _ _ kind _ _ _ => kind == .guarded
  | _ => false

/-- What is prepared with an object: the object, and what is prepared with the objects under its
keys, directly or behind transparent wrappers. -/
inductive Prepares : Schema → Schema → Prop where
  | self {m : Value} {id : Nat} {kind : ObjectKind} {extra : Extra} {absent : Absent}
      {entries : List (Value × Schema)} :
      Prepares (.object m id kind extra absent entries) (.object m id kind extra absent entries)
  | entry {m : Value} {id : Nat} {kind : ObjectKind} {extra : Extra} {absent : Absent}
      {entries : List (Value × Schema)} {e : Value × Schema} {t : Schema} :
      e ∈ entries → Prepares e.2.unveiled t → Prepares (.object m id kind extra absent entries) t

/-- All that is prepared with a schema; nothing if it is not an object. -/
def prepared (s : Schema) : Set Schema := {t | s.Prepares t}

/-- All that is prepared with the objects under the keys of a schema. -/
def preparedUnder (s : Schema) : Set Schema :=
  {t | ∃ m id kind extra absent entries, s = .object m id kind extra absent entries ∧
    ∃ e ∈ entries, e.2.unveiled.Prepares t}

section

variable {m : Value} {id : Nat} {kind : ObjectKind} {extra : Extra} {absent : Absent}
  {entries : List (Value × Schema)} {s t : Schema}

theorem mem_preparedUnder_object :
    t ∈ preparedUnder (.object m id kind extra absent entries) ↔
      ∃ e ∈ entries, e.2.unveiled.Prepares t := by
  constructor
  · rintro ⟨_, _, _, _, _, _, heq, h⟩
    cases heq
    exact h
  · intro h
    exact ⟨_, _, _, _, _, _, rfl, h⟩

theorem prepared_eq_insert (hs : s.isObject = true) : s.prepared = insert s s.preparedUnder := by
  obtain ⟨m, id, kind, extra, absent, entries, rfl⟩ : ∃ m id kind extra absent entries,
      s = .object m id kind extra absent entries := by
    cases s <;> simp [isObject] at hs ⊢
  ext t
  rw [Set.mem_insert_iff, mem_preparedUnder_object]
  constructor
  · intro h
    cases h with
    | self => exact .inl rfl
    | entry he ht => exact .inr ⟨_, he, ht⟩
  · rintro (rfl | ⟨e, he, ht⟩)
    · exact .self
    · exact .entry he ht

theorem Numbered.object {objects : Nat → Schema}
    (hid : objects id = .object m id kind extra absent entries)
    (hentries : ∀ e ∈ entries, e.2.Numbered objects) :
    (object m id kind extra absent entries).Numbered objects := by
  refine numbered_iff.mpr ⟨?_, List.forall_mem_map.mpr hentries⟩
  rintro _ ⟨⟩
  exact hid

theorem Numbered.wrapper {objects : Nat → Schema} (h : s.Numbered objects) (m : Value)
    (w : Wrapping) : (wrapper m w s).Numbered objects :=
  numbered_iff.mpr ⟨nofun, List.forall_mem_singleton.mpr h⟩

theorem prepared_of_not_object (hs : s.isObject = false) : s.prepared = ∅ := by
  ext t
  constructor
  · intro h
    cases h <;> cases hs
  · exact False.elim

theorem preparedUnder_of_not_object (hs : s.isObject = false) : s.preparedUnder = ∅ := by
  ext t
  constructor
  · rintro ⟨_, _, _, _, _, _, rfl, -⟩
    cases hs
  · exact False.elim

theorem sizeOf_unveiled_le (s : Schema) : sizeOf s.unveiled ≤ sizeOf s := by
  induction s with
  | constraint m check name abort inner ih =>
    rw [unveiled]
    exact ih.trans (by simp)
  | wrapper m w inner ih =>
    rw [unveiled]
    exact ih.trans (by simp)
  | _ => exact Nat.le_refl _

/-- What is behind the wrappers under a key is smaller than all the keys together. -/
theorem sizeOf_unveiled_lt_of_mem {e : Value × Schema} (he : e ∈ entries) :
    sizeOf e.2.unveiled < sizeOf entries := by
  have hentry : sizeOf e < sizeOf entries := List.sizeOf_lt_of_mem he
  have hunveiled := sizeOf_unveiled_le e.2
  have hpair : sizeOf e = 1 + sizeOf e.1 + sizeOf e.2 := rfl
  omega

/-- What is prepared with a schema is no larger than the schema. -/
theorem Prepares.sizeOf_le (h : s.Prepares t) : sizeOf t ≤ sizeOf s := by
  induction h with
  | self => exact Nat.le_refl _
  | entry he _ ih =>
    have hlt := sizeOf_unveiled_lt_of_mem he
    simp only [object.sizeOf_spec]
    omega

/-- An object is not among those under its keys. -/
theorem self_not_mem_preparedUnder (s : Schema) : s ∉ s.preparedUnder := by
  rintro ⟨m, id, kind, extra, absent, entries, rfl, e, he, h⟩
  have hle := h.sizeOf_le
  have hlt := sizeOf_unveiled_lt_of_mem he
  simp only [object.sizeOf_spec] at hle
  omega

end

end Schema

/-! ### What is kept -/

/-- The schemas that are kept. -/
def Cache.schemas (cache : Cache) : Set Schema := {s | ∃ e ∈ cache, e.2.schema = s}

theorem Cache.schemas_append (cache more : Cache) :
    Cache.schemas (cache ++ more) = cache.schemas ∪ more.schemas := by
  ext s
  simp only [schemas, List.mem_append, Set.mem_ofPred_eq, Set.mem_union, or_and_right, exists_or]

theorem Cache.schemas_singleton (e : Nat × Compiled) : Cache.schemas [e] = {e.2.schema} := by
  ext s
  simp [schemas, eq_comm]

/-- Every object is kept at most once, under its own number, and with all that is prepared with it.
It is run as it is only if it must not be looked at closely. -/
structure Cache.Tidy (objects : Nat → Schema) (cache : Cache) : Prop where
  schema_eq : ∀ e ∈ cache, e.2.schema = objects e.1
  number_eq : ∀ e ∈ cache, e.2.schema.number? = some e.1
  isFallback_eq : ∀ e ∈ cache, e.2.isFallback = e.2.schema.isGuarded
  nodup : (cache.map (·.1)).Nodup
  closed : ∀ s ∈ cache.schemas, s.prepared ⊆ cache.schemas

/-- The compiler has added to what it keeps, with numbers that nothing had before. -/
structure Workshop.Grown (w w' : Workshop) : Prop where
  next_le : w.next ≤ w'.next
  added : ∃ new, w'.cache = w.cache ++ new ∧
    ∀ e ∈ new, w.next ≤ e.2.serial ∧ e.2.serial < w'.next

variable {objects : Nat → Schema}

theorem Cache.tidy_nil : Cache.Tidy objects [] where
  schema_eq := nofun
  number_eq := nofun
  isFallback_eq := nofun
  nodup := List.nodup_nil
  closed := nofun

section

variable {cache : Cache} {id : Nat} {c : Compiled}

/-- What is kept of objects that had been kept before is nothing more. -/
theorem Cache.Tidy.eq_nil_of_subset {new : Cache} (h : Cache.Tidy objects (cache ++ new))
    (hnew : Cache.schemas (cache ++ new) ⊆ cache.schemas) : new = [] := by
  apply List.eq_nil_iff_forall_not_mem.mpr
  intro e he
  obtain ⟨e', he', hschema⟩ := hnew ⟨e, List.mem_append_right _ he, rfl⟩
  have hnumber := h.number_eq e (List.mem_append_right _ he)
  have hnumber' := h.number_eq e' (List.mem_append_left _ he')
  rw [hschema, hnumber] at hnumber'
  have hnodup := h.nodup
  rw [List.map_append, List.nodup_append] at hnodup
  exact hnodup.2.2 e'.1 (List.mem_map_of_mem he') e.1 (List.mem_map_of_mem he)
    (Option.some.inj hnumber').symm

/-- An object that is not kept can be added, if all under its keys is kept. -/
theorem Cache.Tidy.concat (h : cache.Tidy objects) (hnone : cache.lookup id = none)
    (hschema : c.schema = objects id) (hnumber : c.schema.number? = some id)
    (hfallback : c.isFallback = c.schema.isGuarded)
    (hunder : c.schema.preparedUnder ⊆ cache.schemas) :
    Cache.Tidy objects (cache ++ [(id, c)]) := by
  have hall {P : Nat × Compiled → Prop} (hold : ∀ e ∈ cache, P e) (hnew : P (id, c)) :
      ∀ e ∈ cache ++ [(id, c)], P e :=
    List.forall_mem_append.mpr ⟨hold, List.forall_mem_singleton.mpr hnew⟩
  constructor
  · exact hall h.schema_eq hschema
  · exact hall h.number_eq hnumber
  · exact hall h.isFallback_eq hfallback
  · rw [List.map_append, List.map_singleton, List.nodup_append]
    refine ⟨h.nodup, List.nodup_singleton id, ?_⟩
    intro k hk k' hk' heq
    obtain ⟨e, he, rfl⟩ := List.mem_map.mp hk
    have := List.lookup_eq_none_iff.mp hnone e he
    simp_all
  · have hinside : cache.schemas ⊆ Cache.schemas (cache ++ [(id, c)]) := by
      rw [Cache.schemas_append]
      exact Set.subset_union_left
    have hself : c.schema ∈ Cache.schemas (cache ++ [(id, c)]) := ⟨(id, c), by simp, rfl⟩
    rintro s ⟨e, he, rfl⟩
    revert e
    refine hall (fun e he => (h.closed _ ⟨e, he, rfl⟩).trans hinside) ?_
    intro t ht
    cases hobject : c.schema.isObject with
    | false =>
      rw [Schema.prepared_of_not_object hobject] at ht
      exact ht.elim
    | true =>
      have hprepared := Schema.prepared_eq_insert hobject
      rw [hprepared] at ht
      rcases ht with rfl | ht
      · exact hself
      · exact hinside (hunder ht)

end

/-! ### The compiler at work -/

/-- From a workshop, an object has been compiled anew. -/
structure Workshop.Anew (w : Workshop) (s : Schema) (r : Compiled × Workshop) : Prop where
  schema_eq : r.1.schema = s
  isFallback_eq : r.1.isFallback = s.isGuarded
  le_serial : w.next ≤ r.1.serial
  serial_lt : r.1.serial < r.2.next

theorem Workshop.Grown.refl (w : Workshop) : w.Grown w where
  next_le := Nat.le_refl _
  added := ⟨[], (List.append_nil _).symm, nofun⟩

theorem Workshop.Grown.trans {w w' w'' : Workshop} (h : w.Grown w') (h' : w'.Grown w'') :
    w.Grown w'' := by
  obtain ⟨hle, new, hcache, hnew⟩ := h
  obtain ⟨hle', new', hcache', hnew'⟩ := h'
  refine ⟨hle.trans hle', new ++ new', by rw [hcache', hcache, List.append_assoc], ?_⟩
  intro e he
  rcases List.mem_append.mp he with he | he
  · exact ⟨(hnew e he).1, (hnew e he).2.trans_le hle'⟩
  · exact ⟨hle.trans (hnew' e he).1, (hnew' e he).2⟩

/-- What has been made since is kept as well. -/
theorem Workshop.Grown.concat {w w' : Workshop} (h : w.Grown w') {c : Compiled} (id : Nat)
    (hge : w.next ≤ c.serial) (hlt : c.serial < w'.next) :
    w.Grown { w' with cache := w'.cache ++ [(id, c)] } := by
  obtain ⟨hle, new, hcache, hnew⟩ := h
  refine ⟨hle, new ++ [(id, c)], by simp [hcache], ?_⟩
  exact List.forall_mem_append.mpr ⟨hnew, List.forall_mem_singleton.mpr ⟨hge, hlt⟩⟩

/-- What is kept stays kept when more is. -/
theorem Workshop.Grown.lookup {w w' : Workshop} (h : w.Grown w') {id : Nat} {c : Compiled}
    (hc : w.cache.lookup id = some c) : w'.cache.lookup id = some c := by
  obtain ⟨-, new, hcache, -⟩ := h
  rw [hcache, List.lookup_append, hc]
  rfl

namespace Compilation

/-- From a tidy state the compiler gets to a tidy state, and has added these schemas to what it
keeps. -/
def Adds {α : Type} (objects : Nat → Schema) (c : Compilation α) (S : Set Schema) : Prop :=
  ∀ w : Workshop, w.cache.Tidy objects →
    w.Grown (c w).2 ∧ (c w).2.cache.Tidy objects ∧
      (c w).2.cache.schemas = w.cache.schemas ∪ S

theorem adds_pure {α : Type} (a : α) : Adds objects (Pure.pure a : Compilation α) ∅ := by
  intro w hw
  exact ⟨.refl w, hw, (Set.union_empty _).symm⟩

theorem Adds.bind {α β : Type} {c : Compilation α} {f : α → Compilation β} {S T : Set Schema}
    (hc : Adds objects c S) (hf : ∀ a, Adds objects (f a) T) :
    Adds objects (c >>= f) (S ∪ T) := by
  intro w hw
  obtain ⟨hgrown, htidy, hschemas⟩ := hc w hw
  obtain ⟨hgrown', htidy', hschemas'⟩ := hf (c w).1 (c w).2 htidy
  refine ⟨hgrown.trans hgrown', htidy', ?_⟩
  rw [← Set.union_assoc, ← hschemas]
  exact hschemas'

/-- What is made of the result makes no difference to what is kept. -/
theorem Adds.map {α β : Type} {c : Compilation α} {S : Set Schema} (hc : Adds objects c S)
    (f : α → β) : Adds objects (do return f (← c)) S := by
  have h := hc.bind fun a => adds_pure (f a)
  rwa [Set.union_empty] at h

section

variable {m : Value} {id : Nat} {kind : ObjectKind} {extra : Extra} {absent : Absent}
  {entries : List (Value × Schema)} {c : Compiled} {w : Workshop}

theorem fetch_of_kept (h : w.cache.lookup id = some c) :
    fetch (.object m id kind extra absent entries) w = (c, w) := by
  simp only [fetch, bind, StateT.bind, get, getThe, MonadStateOf.get, StateT.get, pure, h]
  rfl

theorem fetch_of_new (h : w.cache.lookup id = none) :
    fetch (.object m id kind extra absent entries) w =
      (compile (.object m id kind extra absent entries) >>= keep id) w := by
  simp only [fetch, bind, StateT.bind, get, getThe, MonadStateOf.get, StateT.get, pure, h]

/-- A nested object is fetched. -/
theorem nested?_object : nested? (.object m id kind extra absent entries) = do
    return some (← fetch (.object m id kind extra absent entries)).plan := by
  funext w
  cases h : w.cache.lookup id with
  | some c =>
    simp only [nested?, fetch, bind, StateT.bind, get, getThe, MonadStateOf.get, StateT.get, pure, h]
    rfl
  | none =>
    simp only [nested?, fetch, bind, StateT.bind, get, getThe, MonadStateOf.get, StateT.get, pure, h]
    rfl

/-- An object is put together under the next number. -/
theorem exists_assemble (plans : List (Value × String × Plan)) (w : Workshop) :
    ∃ plan, assemble (.object m id kind extra absent entries) plans w =
      (⟨w.next, .object m id kind extra absent entries, plan, kind == .guarded⟩,
        { w with next := w.next + 1 }) := by
  cases kind <;> exact ⟨_, rfl⟩

theorem lookup_keep (id : Nat) (c : Compiled) (w : Workshop) :
    (keep id c w).2.cache.lookup id = some (keep id c w).1 := by
  cases h : w.cache.lookup id with
  | some kept =>
    rw [keep_of_kept h]
    exact h
  | none =>
    rw [keep_of_new h, List.lookup_append, h]
    simp

/-- An object that has been fetched is kept as what was fetched. -/
theorem lookup_fetch (w : Workshop) :
    (fetch (.object m id kind extra absent entries) w).2.cache.lookup id =
      some (fetch (.object m id kind extra absent entries) w).1 := by
  cases h : w.cache.lookup id with
  | some c =>
    rw [fetch_of_kept h]
    exact h
  | none =>
    rw [fetch_of_new h]
    exact lookup_keep id _ _

/-- Compiling an object adds what preparing what is under its keys adds. -/
theorem anew_compile_object
    (hentries : Adds objects (entryPlans entries)
      (Schema.preparedUnder (.object m id kind extra absent entries))) :
    Adds objects (compile (.object m id kind extra absent entries))
        (Schema.preparedUnder (.object m id kind extra absent entries)) ∧
      ∀ w : Workshop, w.cache.Tidy objects →
        w.Anew (.object m id kind extra absent entries)
          (compile (.object m id kind extra absent entries) w) := by
  have heval (w : Workshop) : ∃ plan, compile (.object m id kind extra absent entries) w =
      (⟨(entryPlans entries w).2.next, .object m id kind extra absent entries, plan,
          kind == .guarded⟩,
        ⟨(entryPlans entries w).2.cache, (entryPlans entries w).2.next + 1⟩) :=
    exists_assemble _ _
  constructor
  · intro w hw
    obtain ⟨hgrown, htidy, hschemas⟩ := hentries w hw
    obtain ⟨plan, hcompile⟩ := heval w
    rw [hcompile]
    exact ⟨hgrown.trans ⟨Nat.le_succ _, [], (List.append_nil _).symm, nofun⟩, htidy, hschemas⟩
  · intro w hw
    obtain ⟨hgrown, -, -⟩ := hentries w hw
    obtain ⟨plan, hcompile⟩ := heval w
    rw [hcompile]
    exact ⟨rfl, rfl, hgrown.next_le, Nat.lt_succ_self _⟩

/-- Fetching an object adds all that is prepared with it, as preparing what is under its keys adds
all that is prepared with that. -/
theorem adds_fetch_object (hid : objects id = .object m id kind extra absent entries)
    (hentries : Adds objects (entryPlans entries)
      (Schema.preparedUnder (.object m id kind extra absent entries))) :
    Adds objects (fetch (.object m id kind extra absent entries))
      (Schema.prepared (.object m id kind extra absent entries)) := by
  intro w hw
  have hkept {w : Workshop} (hw : w.cache.Tidy objects) {c : Compiled}
      (h : w.cache.lookup id = some c) :
      .object m id kind extra absent entries ∈ w.cache.schemas :=
    ⟨_, mem_of_lookup h, (hw.schema_eq _ (mem_of_lookup h)).trans hid⟩
  cases h : w.cache.lookup id with
  | some c =>
    rw [fetch_of_kept h]
    exact ⟨.refl w, hw, (Set.union_eq_left.mpr (hw.closed _ (hkept hw h))).symm⟩
  | none =>
    obtain ⟨hcompile, hanew⟩ := anew_compile_object hentries
    obtain ⟨hgrown, htidy, hschemas⟩ := hcompile w hw
    obtain ⟨hschema, hfallback, hge, hlt⟩ := hanew w hw
    have hfetch : fetch (.object m id kind extra absent entries) w =
        keep id (compile (.object m id kind extra absent entries) w).1
          (compile (.object m id kind extra absent entries) w).2 := fetch_of_new h
    rw [hfetch, Schema.prepared_eq_insert rfl, Set.union_insert, ← hschemas]
    generalize compile (.object m id kind extra absent entries) w = r at *
    obtain ⟨c, w'⟩ := r
    cases h' : w'.cache.lookup id with
    | some kept =>
      rw [keep_of_kept h']
      exact ⟨hgrown, htidy, (Set.insert_eq_of_mem (hkept htidy h')).symm⟩
    | none =>
      rw [keep_of_new h']
      have hunder : c.schema.preparedUnder ⊆ w'.cache.schemas := by
        rw [hschema, hschemas]
        exact Set.subset_union_right
      refine ⟨hgrown.concat id hge hlt, ?_, ?_⟩
      · exact htidy.concat h' (hschema.trans hid.symm) (hschema ▸ rfl) (hschema ▸ hfallback) hunder
      · rw [Cache.schemas_append, Cache.schemas_singleton, hschema, Set.union_singleton]

/-- The plans of declared keys: all is added that is prepared with the objects under them. -/
theorem adds_entryPlans
    (hnested : ∀ e ∈ entries, Adds objects (nested? e.2) e.2.unveiled.prepared) :
    Adds objects (entryPlans entries)
      (Schema.preparedUnder (.object m id kind extra absent entries)) := by
  induction entries with
  | nil =>
    have hnone : Schema.preparedUnder (.object m id kind extra absent []) = ∅ := by
      ext t
      simp [Schema.mem_preparedUnder_object]
    rw [hnone]
    exact adds_pure []
  | cons e rest ih =>
    have hunion : Schema.preparedUnder (.object m id kind extra absent (e :: rest)) =
        e.2.unveiled.prepared ∪ Schema.preparedUnder (.object m id kind extra absent rest) := by
      ext t
      simp only [Schema.mem_preparedUnder_object, Set.mem_union, List.exists_mem_cons_iff]
      rfl
    rw [List.forall_mem_cons] at hnested
    rw [hunion]
    exact hnested.1.bind fun plan => (ih hnested.2).map _

/-- Preparing what is under a key adds all that is prepared with the object there, if one is. -/
theorem adds_nested {s : Schema} (hs : s.Numbered objects) :
    Adds objects (nested? s) s.unveiled.prepared := by
  induction s with
  | object m id kind extra absent entries ih =>
    rw [nested?_object]
    refine (adds_fetch_object (hs _ .self id rfl) (adds_entryPlans ?_)).map _
    intro e he
    exact ih e he (hs.child (List.mem_map_of_mem he))
  | constraint m check name abort inner ih =>
    exact (ih (hs.child (List.mem_singleton_self _))).map _
  | wrapper m w inner ih =>
    exact (ih (hs.child (List.mem_singleton_self _))).map _
  | _ =>
    rw [Schema.prepared_of_not_object rfl]
    exact adds_pure none

end

section

variable {s : Schema}

theorem adds_fallback (s : Schema) : Adds objects (fallback s) ∅ := by
  intro w hw
  exact ⟨⟨Nat.le_succ _, [], (List.append_nil _).symm, nofun⟩, hw, (Set.union_empty _).symm⟩

theorem adds_entryPlans_of_numbered {m : Value} {id : Nat} {kind : ObjectKind} {extra : Extra}
    {absent : Absent} {entries : List (Value × Schema)}
    (hs : (Schema.object m id kind extra absent entries).Numbered objects) :
    Adds objects (entryPlans entries)
      (Schema.preparedUnder (.object m id kind extra absent entries)) :=
  adds_entryPlans fun _ he => adds_nested (hs.child (List.mem_map_of_mem he))

/-- Compiling a schema anew adds all that is prepared with the objects under its keys. -/
theorem adds_compile (hs : s.Numbered objects) : Adds objects (compile s) s.preparedUnder := by
  cases s with
  | object m id kind extra absent entries =>
    exact (anew_compile_object (adds_entryPlans_of_numbered hs)).1
  | _ =>
    rw [Schema.preparedUnder_of_not_object rfl]
    exact adds_fallback _

/-- What is compiled anew has a number of its own. -/
theorem le_serial_compile (hs : s.Numbered objects) {w : Workshop} (hw : w.cache.Tidy objects) :
    w.next ≤ (compile s w).1.serial := by
  cases s with
  | object m id kind extra absent entries =>
    exact ((anew_compile_object (adds_entryPlans_of_numbered hs)).2 w hw).le_serial
  | _ => exact Nat.le_refl _

/-- Fetching a schema adds all that is prepared with it. -/
theorem adds_fetch (hs : s.Numbered objects) : Adds objects (fetch s) s.prepared := by
  cases s with
  | object m id kind extra absent entries =>
    exact adds_fetch_object (hs _ .self id rfl) (adds_entryPlans_of_numbered hs)
  | _ =>
    rw [Schema.prepared_of_not_object rfl]
    exact adds_fallback _

end

end Compilation

/-! ### Sequences of operations -/

namespace State

variable {st : State} {compiler : Nat}

/-- What one compiler keeps is no matter of another's. -/
theorem lookup_filter_of_ne {other : Nat} (h : other ≠ compiler) (caches : List (Nat × Cache)) :
    (caches.filter fun c => c.1 != compiler).lookup other = caches.lookup other := by
  induction caches with
  | nil => rfl
  | cons p rest ih =>
    obtain ⟨k, cache⟩ := p
    by_cases hk : k = compiler
    · have hother : (other == compiler) = false := by simp [h]
      simp [List.lookup_cons, hk, hother, ih]
    · simp [List.lookup_cons, hk, ih]

theorem cache_withCache (st : State) (compiler : Nat) (cache : Cache) (other : Nat) :
    (st.withCache compiler cache).cache other =
      if other = compiler then cache else st.cache other := by
  unfold State.cache withCache
  by_cases h : other = compiler
  · simp [h]
  · have hother : (other == compiler) = false := by simp [h]
    rw [if_neg h, List.lookup_cons, hother]
    exact congrArg (·.getD []) (lookup_filter_of_ne h st.caches)

theorem cache_compileWith {α : Type} (st : State) (compiler : Nat) (c : Compilation α)
    (other : Nat) : (st.compileWith compiler c).2.cache other =
      if other = compiler then (c ⟨st.cache compiler, st.nextSerial⟩).2.cache
        else st.cache other :=
  cache_withCache st compiler _ other

theorem cache_compileWith_self {α : Type} (st : State) (compiler : Nat) (c : Compilation α) :
    (st.compileWith compiler c).2.cache compiler =
      (c ⟨st.cache compiler, st.nextSerial⟩).2.cache := by
  rw [cache_compileWith, if_pos rfl]

/-- What holds of states however compilers work on certain schemas and whatever happens in the world,
and when certain compilers are cleared. -/
structure Lasts (Q : Schema → Prop) (C : Nat → Prop) (P : State → Prop) : Prop where
  fetch : ∀ st compiler s, Q s → P st → P (st.compileWith compiler (Compilation.fetch s)).2
  compile : ∀ st compiler s, Q s → P st → P (st.compileWith compiler (Compilation.compile s)).2
  clear : ∀ st compiler, C compiler → P st → P (st.withCache compiler [])
  world : ∀ st w, P st → P { st with world := w }

namespace Lasts

variable {Q : Schema → Prop} {C : Nat → Prop} {P : State → Prop} {s : Schema}

theorem parse (h : Lasts Q C P) (hs : Q s) (e : Engine) (ctx : Context) (v : Value) {st : State}
    (hst : P st) : P (e.parse ctx s v st).2 := by
  obtain ⟨fast, compiler⟩ := e
  cases fast with
  | true => exact h.world _ _ (h.fetch st compiler s hs hst)
  | false => exact h.world _ _ hst

theorem parseBulk (h : Lasts Q C P) (hs : Q s) (e : Engine) (ctx : Context) (vs : List Value)
    {st : State} (hst : P st) : P (e.parseBulk ctx s vs st).2 := by
  induction vs generalizing st with
  | nil => exact hst
  | cons v rest ih =>
    have hparse := h.parse hs e ctx v hst
    rw [Engine.parseBulk]
    generalize e.parse ctx s v st = answer at hparse
    obtain ⟨r, st'⟩ := answer
    cases r with
    | error f => exact hparse
    | ok r => exact ih hparse

/-- One operation. -/
theorem perform (h : Lasts Q C P) {op : Operation} (hop : ∀ s ∈ op.schema?, Q s)
    (hclear : ∀ compiler, op = .clear compiler → C compiler) {st : State} (hst : P st) :
    P (op.perform st).2 := by
  cases op with
  | fetch compiler s => exact h.fetch st compiler s (hop s rfl) hst
  | compile compiler s => exact h.compile st compiler s (hop s rfl) hst
  | clear compiler => exact h.clear st compiler (hclear compiler rfl) hst
  | parse e ctx s v => exact h.parse (hop s rfl) e ctx v hst
  | parseBulk e ctx s vs => exact h.parseBulk (hop s rfl) e ctx vs hst
  | validate e ctx s v => exact h.parse (hop s rfl) e ctx v hst

/-- All operations of a session. -/
theorem performAll (h : Lasts Q C P) {ops : List Operation}
    (hops : ∀ op ∈ ops, ∀ s ∈ op.schema?, Q s)
    (hclear : ∀ compiler, .clear compiler ∈ ops → C compiler) {st : State} (hst : P st) :
    P (Operation.performAll ops st).2 := by
  induction ops generalizing st with
  | nil => exact hst
  | cons op rest ih =>
    rw [List.forall_mem_cons] at hops
    refine ih hops.2 (fun compiler hmem => hclear compiler (List.mem_cons_of_mem _ hmem))
      (h.perform hops.1 ?_ hst)
    rintro compiler rfl
    exact hclear compiler List.mem_cons_self

end Lasts

/-- What all compilers keep is tidy, and the numbers of what is kept have been given out. -/
structure Tidy (objects : Nat → Schema) (st : State) : Prop where
  cache : ∀ compiler, (st.cache compiler).Tidy objects
  serial_lt : ∀ compiler, ∀ e ∈ st.cache compiler, e.2.serial < st.nextSerial

theorem tidy_empty : State.empty.Tidy objects where
  cache _ := Cache.tidy_nil
  serial_lt _ := nofun

/-- A compiler at work in a tidy state leaves a tidy state. -/
theorem Tidy.compileWith {α : Type} {c : Compilation α} {S : Set Schema} (h : st.Tidy objects)
    (compiler : Nat) (hc : Compilation.Adds objects c S) :
    (st.compileWith compiler c).2.Tidy objects := by
  obtain ⟨⟨hle, new, hcache, hnew⟩, htidy, -⟩ := hc ⟨st.cache compiler, st.nextSerial⟩ (h.cache _)
  constructor
  · intro other
    rw [cache_compileWith]
    split
    · exact htidy
    · exact h.cache other
  · intro other e he
    rw [cache_compileWith] at he
    split at he
    · rw [hcache] at he
      rcases List.mem_append.mp he with he | he
      · exact (h.serial_lt compiler e he).trans_le hle
      · exact (hnew e he).2
    · exact (h.serial_lt other e he).trans_le hle

/-- After any session on numbered schemas the state is tidy. -/
theorem lasts_tidy : Lasts (·.Numbered objects) (fun _ => True) (Tidy objects) where
  fetch _ compiler _ hs h := h.compileWith compiler (Compilation.adds_fetch hs)
  compile _ compiler _ hs h := h.compileWith compiler (Compilation.adds_compile hs)
  clear st compiler _ h := by
    constructor
    · intro other
      rw [cache_withCache]
      split
      · exact Cache.tidy_nil
      · exact h.cache other
    · intro other e he
      rw [cache_withCache] at he
      split at he
      · cases he
      · exact h.serial_lt other e he
  world _ _ h := ⟨h.cache, h.serial_lt⟩

/-- What a compiler keeps for a number, it keeps as long as it is not cleared. -/
theorem lasts_kept (compiler id : Nat) (c : Compiled) :
    Lasts (·.Numbered objects) (· ≠ compiler) fun st =>
      st.Tidy objects ∧ (st.cache compiler).lookup id = some c := by
  have hwork {st : State} {α : Type} {work : Compilation α} {S : Set Schema} (other : Nat)
      (hadds : Compilation.Adds objects work S)
      (h : st.Tidy objects ∧ (st.cache compiler).lookup id = some c) :
      (st.compileWith other work).2.Tidy objects ∧
        ((st.compileWith other work).2.cache compiler).lookup id = some c := by
    refine ⟨h.1.compileWith other hadds, ?_⟩
    rw [cache_compileWith]
    split
    · next heq =>
      subst heq
      exact (hadds ⟨st.cache compiler, st.nextSerial⟩ (h.1.cache _)).1.lookup h.2
    · exact h.2
  constructor
  · exact fun st other s hs h => hwork other (Compilation.adds_fetch hs) h
  · exact fun st other s hs h => hwork other (Compilation.adds_compile hs) h
  · intro st other hne h
    refine ⟨lasts_tidy.clear st other trivial h.1, ?_⟩
    rw [cache_withCache, if_neg (Ne.symm hne)]
    exact h.2
  · exact fun st w h => ⟨lasts_tidy.world st w h.1, h.2⟩

end State

section

variable {ops : List Operation}

/-- After any session on numbered schemas the state is tidy. -/
theorem tidy_performAll (hops : ∀ op ∈ ops, ∀ s ∈ op.schema?, s.Numbered objects) :
    (Operation.performAll ops .empty).2.Tidy objects :=
  State.lasts_tidy.performAll hops (fun _ _ => trivial) State.tidy_empty

/-- **What the compiler keeps.**  After any sequence of operations, what a compiler keeps is closed:
with every object it keeps all that are prepared with it.  A schema that is fetched adds all that is
prepared with it, and nothing else; nothing changes if it is not an object.  Every object is kept
under its own number, once, as something that runs like it, and that runs the object as it is exactly
if the object is guarded.  As long as the compiler is not cleared, what is fetched for an object stays
the same. -/
theorem prepared_objects_kept (objects : Nat → Schema) (ops : List Operation)
    (hops : ∀ op ∈ ops, ∀ s ∈ op.schema?, s.Numbered objects) (compiler : Nat) :
    let st := (Operation.performAll ops .empty).2
    let kept := st.cache compiler
    (∀ s ∈ kept.schemas, s.prepared ⊆ kept.schemas) ∧
    (∀ s : Schema, s.Numbered objects →
      let fetched := (st.compileWith compiler (Compilation.fetch s)).2.cache compiler
      fetched.schemas = kept.schemas ∪ s.prepared ∧ (s.isObject = false → fetched = kept)) ∧
    (∀ e ∈ kept, e.2.schema = objects e.1 ∧ e.2.schema.number? = some e.1 ∧
      e.2.run = e.2.schema.run ∧ (e.2.isFallback = true ↔ e.2.schema.isGuarded = true)) ∧
    (kept.map (·.1)).Nodup ∧
    (∀ s : Schema, s.Numbered objects → s.isObject = true → ∀ more : List Operation,
      (∀ op ∈ more, ∀ s ∈ op.schema?, s.Numbered objects) → .clear compiler ∉ more →
      let fetched := st.compileWith compiler (Compilation.fetch s)
      let later := (Operation.performAll more fetched.2).2
      (later.compileWith compiler (Compilation.fetch s)).1 = fetched.1) := by
  intro st kept
  have htidy : st.Tidy objects := tidy_performAll hops
  have hsound : st.Sound objects :=
    (Operation.performAll_alike hops ⟨State.sound_empty, State.sound_empty, rfl⟩).2.left
  refine ⟨(htidy.cache compiler).closed, ?_, ?_, (htidy.cache compiler).nodup, ?_⟩
  · intro s hs fetched
    have hfetched : fetched = (Compilation.fetch s ⟨kept, st.nextSerial⟩).2.cache :=
      st.cache_compileWith_self compiler _
    refine ⟨?_, ?_⟩
    · rw [hfetched]
      exact (Compilation.adds_fetch hs ⟨kept, st.nextSerial⟩ (htidy.cache compiler)).2.2
    · intro hobject
      rw [hfetched]
      cases s <;> first | rfl | cases hobject
  · intro e he
    have hfaithful := hsound.cache compiler st.nextSerial e he
    have hschema := (htidy.cache compiler).schema_eq e he
    refine ⟨hschema, (htidy.cache compiler).number_eq e he, ?_, ?_⟩
    · rw [hfaithful.run_eq, hschema]
    · rw [(htidy.cache compiler).isFallback_eq e he]
  · intro s hs hobject more hmore hclear fetched later
    cases s with
    | object m id kind extra absent entries =>
      have hfetched : (fetched.2.cache compiler).lookup id = some fetched.1 := by
        rw [State.cache_compileWith_self]
        exact Compilation.lookup_fetch _
      have htidy' : fetched.2.Tidy objects :=
        htidy.compileWith compiler (Compilation.adds_fetch hs)
      have hlater := ((State.lasts_kept compiler id fetched.1).performAll hmore
        (fun other hmem heq => hclear (heq ▸ hmem)) ⟨htidy', hfetched⟩).2
      change (Compilation.fetch (.object m id kind extra absent entries)
        ⟨later.cache compiler, later.nextSerial⟩).1 = fetched.1
      rw [Compilation.fetch_of_kept hlater]
    | _ => cases hobject

/-- An object inside another, behind two wrappers.  The outer one is compiled anew and fetched, a
value is validated, another compiler is cleared, and the outer one is fetched again. -/
theorem prepared_objects_kept_wrapped :
    let inner : Schema := .object .null 0 .plain .strip .validate []
    let outer : Schema := .object .null 1 .strict .strict .reject
      [(.str "a", .wrapper .null .optional (.wrapper .null .nullable inner))]
    let objects : Nat → Schema := fun id => if id = 0 then inner else outer
    let ctx : Context := ⟨.default, [], [], [], ⟨fun _ _ _ => .error .callable, 0⟩⟩
    let ops : List Operation := [.compile 0 outer]
    let more : List Operation := [.parse ⟨true, 0⟩ ctx inner .null, .clear 1]
    let st := (Operation.performAll ops .empty).2
    let fetched := st.compileWith 0 (Compilation.fetch outer)
    (∀ op ∈ ops ++ more, ∀ s ∈ op.schema?, s.Numbered objects) ∧ .clear 0 ∉ more ∧
    outer.Numbered objects ∧ outer.isObject = true ∧
    (st.cache 0).length = 1 ∧ outer.Prepares inner ∧
    (fetched.2.cache 0).schemas = (st.cache 0).schemas ∪ outer.prepared ∧
    ((Operation.performAll more fetched.2).2.compileWith 0 (Compilation.fetch outer)).1 =
      fetched.1 := by
  intro inner outer objects ctx ops more st fetched
  have hinner : inner.Numbered objects := .object rfl nofun
  have houter : outer.Numbered objects :=
    .object rfl (List.forall_mem_singleton.mpr ((hinner.wrapper _ _).wrapper _ _))
  have hops : ∀ op ∈ ops, ∀ s ∈ op.schema?, s.Numbered objects := by
    simp [ops, Operation.schema?, houter]
  have hmore : ∀ op ∈ more, ∀ s ∈ op.schema?, s.Numbered objects := by
    simp [more, Operation.schema?, hinner]
  have hclear : .clear 0 ∉ more := by simp [more]
  obtain ⟨-, hfetch, -, -, hagain⟩ := prepared_objects_kept objects ops hops 0
  exact ⟨List.forall_mem_append.mpr ⟨hops, hmore⟩, hclear, houter, rfl, rfl,
    .entry (List.mem_singleton_self _) .self, (hfetch outer houter).1,
    hagain outer houter rfl more hmore hclear⟩

/-- An object that is guarded is kept as something that runs it as it is. -/
theorem guarded_object_kept :
    let s : Schema := .object .null 0 .guarded .strip .validate []
    let st := (Operation.performAll [.fetch 0 s] .empty).2
    ∃ e ∈ st.cache 0, e.2.schema = s ∧ e.2.isFallback = true :=
  ⟨_, List.mem_singleton_self _, rfl, rfl⟩

/-- **Compiling anew.**  After any sequence of operations, compiling a schema anew leaves what the
compiler keeps as it is, and adds all that is prepared with the objects under the keys of the schema,
but not the schema itself.  So nothing changes exactly if all these are kept already.  What is
compiled is none of what is kept; other compilers and the world are not affected. -/
theorem compiled_anew (objects : Nat → Schema) (ops : List Operation)
    (hops : ∀ op ∈ ops, ∀ s ∈ op.schema?, s.Numbered objects) (compiler : Nat) (s : Schema)
    (hs : s.Numbered objects) :
    let st := (Operation.performAll ops .empty).2
    let kept := st.cache compiler
    let compiled := st.compileWith compiler (Compilation.compile s)
    let after := compiled.2.cache compiler
    (∃ new, after = kept ++ new) ∧
    after.schemas = kept.schemas ∪ s.preparedUnder ∧
    (after = kept ↔ s.preparedUnder ⊆ kept.schemas) ∧
    (s ∈ after.schemas ↔ s ∈ kept.schemas) ∧
    (∀ e ∈ kept, e.2.serial ≠ compiled.1.serial) ∧
    (∀ other, other ≠ compiler → compiled.2.cache other = st.cache other) ∧
    compiled.2.world = st.world := by
  intro st kept compiled after
  have htidy : st.Tidy objects := tidy_performAll hops
  have hkept := htidy.cache compiler
  obtain ⟨⟨-, new, hnew, -⟩, htidy', hschemas⟩ :=
    Compilation.adds_compile hs ⟨kept, st.nextSerial⟩ hkept
  have hafter : after = kept ++ new := (st.cache_compileWith_self compiler _).trans hnew
  rw [hnew] at htidy' hschemas
  rw [hafter]
  refine ⟨⟨new, rfl⟩, hschemas, ?_, ?_, ?_, ?_, rfl⟩
  · constructor
    · intro heq
      rw [← Set.union_eq_left, ← hschemas]
      exact congrArg Cache.schemas heq
    · intro hsubset
      rw [← Set.union_eq_left, ← hschemas] at hsubset
      rw [htidy'.eq_nil_of_subset hsubset.subset, List.append_nil]
  · rw [hschemas, Set.mem_union]
    exact or_iff_left s.self_not_mem_preparedUnder
  · intro e he
    exact ((htidy.serial_lt compiler e he).trans_le
      (Compilation.le_serial_compile hs (w := ⟨kept, st.nextSerial⟩) hkept)).ne
  · intro other hother
    exact (State.cache_compileWith ..).trans (if_neg hother)

/-- An object inside another, which is kept when the other is compiled anew, and when it is compiled
anew once more. -/
theorem compiled_anew_nested :
    let inner : Schema := .object .null 0 .plain .strip .validate []
    let outer : Schema := .object .null 1 .plain .strip .validate [(.str "a", inner)]
    let objects : Nat → Schema := fun id => if id = 0 then inner else outer
    let ops : List Operation := [.compile 0 outer]
    let st := (Operation.performAll ops .empty).2
    (∀ op ∈ ops, ∀ s ∈ op.schema?, s.Numbered objects) ∧ outer.Numbered objects ∧
    outer.preparedUnder ⊆ (st.cache 0).schemas ∧
    (st.compileWith 0 (Compilation.compile outer)).2.cache 0 = st.cache 0 := by
  intro inner outer objects ops st
  have houter : outer.Numbered objects :=
    .object rfl (List.forall_mem_singleton.mpr (.object rfl nofun))
  have hops : ∀ op ∈ ops, ∀ s ∈ op.schema?, s.Numbered objects := by
    simp [ops, Operation.schema?, houter]
  have hunder : outer.preparedUnder ⊆ (st.cache 0).schemas := by
    have hfirst : (st.cache 0).schemas = (State.empty.cache 0).schemas ∪ outer.preparedUnder :=
      (compiled_anew objects [] (List.forall_mem_nil _) 0 outer houter).2.1
    rw [hfirst]
    exact Set.subset_union_right
  obtain ⟨-, -, hsame, -⟩ := compiled_anew objects ops hops 0 outer houter
  exact ⟨hops, houter, hunder, hsame.mpr hunder⟩

/-- Compiling an object anew that has another inside changes what is kept. -/
theorem compiled_anew_keeps :
    let inner : Schema := .object .null 0 .plain .strip .validate []
    let outer : Schema := .object .null 1 .plain .strip .validate [(.str "a", inner)]
    let compiled := State.empty.compileWith 0 (Compilation.compile outer)
    (State.empty.cache 0).schemas = ∅ ∧ inner ∈ (compiled.2.cache 0).schemas := by
  intro inner outer compiled
  refine ⟨?_, _, List.mem_singleton_self _, rfl⟩
  simp [Cache.schemas, State.empty, State.cache]

end

end Conform
