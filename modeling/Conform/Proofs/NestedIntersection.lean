/-
  Conform/Proofs/NestedIntersection.lean
  ======================================
  **Nested intersections.**  An intersection of intersections comes to what one
  intersection of all the leaves comes to, where strict equality is symmetric and
  transitive on the leaves' outputs (`Nest.meets_of_intersections`).

  As long as nothing is wrong both run the same leaves in the same worlds, and what
  an inner intersection comes to sums its leaves up (`Dataset.Sums`).  Where something
  is wrong for the first time the leaves falter (`Context.Falters`): then both fail,
  though the nested one may run other leaves after that, in other worlds.
-/
import Conform.Proofs.Grouping
import Conform.Proofs.Nesting

namespace Conform

open Validator

/-- No merged value comes of the dataset: it is untyped, or its issues end the validation. -/
def Dataset.Stops (ctx : Context) (d : Dataset) : Prop :=
  d.isTyped = false ∨ d.Breaks ctx

/-- What members have come to, merged. -/
structure Dataset.Sums (ctx : Context) (ds : List Dataset) (d : Dataset) : Prop where
  goes : ∀ e ∈ ds, ¬e.Stops ctx
  typed : d.isTyped = true
  issues : d.issues = ds.flatMap (·.issues)
  merges : MergesTo (ds.map (·.value)) d.value

/-- The first of some members come to something that cannot be merged. -/
def Context.Falters (ctx : Context) (x : Value) (vs : List Validator) (w : World) : Prop :=
  ∃ front back ds u, vs = front ++ back ∧ front.mapM (fun m => m.apply ctx x) w = (.ok ds, u) ∧
    ((∃ d ∈ ds, d.Stops ctx) ∨ ¬Harmonious (ds.map (·.value)))

/-- Strict equality is symmetric and transitive on the outputs of members that are run one after
another, as many of them as there are. -/
def Context.OutputsConsistent (ctx : Context) (x : Value) (vs : List Validator) (w : World) : Prop :=
  ∀ front back ds u, vs = front ++ back → front.mapM (fun m => m.apply ctx x) w = (.ok ds, u) →
    Consistent ((ds.filter (·.isTyped)).map (·.value))

/-- What an intersection comes to: what its members come to, merged, or a failure where they
falter. -/
inductive Context.Meets (ctx : Context) (x : Value) (vs : List Validator) (w : World) :
    Dataset → World → Prop where
  | merged {ds : List Dataset} {d : Dataset} {u : World} :
      vs.mapM (fun m => m.apply ctx x) w = (.ok ds, u) → Dataset.Sums ctx ds d →
      d.status = (if d.issues = [] then .success else .partly) → Meets ctx x vs w d u
  | failed {d : Dataset} {u : World} : ctx.Falters x vs w → d.status = .failure → d.value = x →
      Meets ctx x vs w d u

section

variable {ctx : Context} {x : Value} {vs us : List Validator} {w v u : World} {d e : Dataset}
  {ds es : List Dataset}

/-! ### Members one after another -/

theorem mapM_append_iff :
    (vs ++ us).mapM (fun m => m.apply ctx x) w = (.ok es, u) ↔
      ∃ ds ds' v, vs.mapM (fun m => m.apply ctx x) w = (.ok ds, v) ∧
        us.mapM (fun m => m.apply ctx x) v = (.ok ds', u) ∧ es = ds ++ ds' := by
  rw [List.mapM_append]
  constructor
  · intro h
    obtain ⟨ds, v, hds, h⟩ := bind_eq_ok h
    obtain ⟨ds', v', hds', h⟩ := bind_eq_ok h
    cases h
    exact ⟨ds, ds', v, hds, hds', rfl⟩
  · rintro ⟨ds, ds', v, hds, hds', rfl⟩
    rw [bind_of_eq_ok hds, bind_of_eq_ok hds']
    rfl

theorem Context.Falters.append (h : ctx.Falters x vs w) (us : List Validator) :
    ctx.Falters x (vs ++ us) w := by
  obtain ⟨front, back, ds, u, rfl, hds, hstops⟩ := h
  exact ⟨front, back ++ us, ds, u, List.append_assoc .., hds, hstops⟩

/-- Members falter that falter after others. -/
theorem Context.Falters.after (h : ctx.Falters x us v)
    (hds : vs.mapM (fun m => m.apply ctx x) w = (.ok ds, v)) : ctx.Falters x (vs ++ us) w := by
  obtain ⟨front, back, ds', u, rfl, hds', hstops⟩ := h
  refine ⟨vs ++ front, back, ds ++ ds', u, (List.append_assoc ..).symm,
    mapM_append_iff.mpr ⟨ds, ds', v, hds, hds', rfl⟩, ?_⟩
  rcases hstops with ⟨d, hd, hstop⟩ | hharmony
  · exact .inl ⟨d, List.mem_append_right _ hd, hstop⟩
  · refine .inr fun hall => hharmony (hall.sublist ?_)
    rw [List.map_append]
    exact List.sublist_append_right _ _

theorem Context.OutputsConsistent.left (h : ctx.OutputsConsistent x (vs ++ us) w) :
    ctx.OutputsConsistent x vs w := by
  rintro front back ds u rfl hds
  exact h front (back ++ us) ds u (List.append_assoc ..) hds

theorem Context.OutputsConsistent.right (h : ctx.OutputsConsistent x (vs ++ us) w)
    (hds : vs.mapM (fun m => m.apply ctx x) w = (.ok ds, v)) : ctx.OutputsConsistent x us v := by
  rintro front back ds' u rfl hds'
  refine (h (vs ++ front) back (ds ++ ds') u (List.append_assoc ..).symm
    (mapM_append_iff.mpr ⟨ds, ds', v, hds, hds', rfl⟩)).mono ?_
  rw [List.filter_append, List.map_append]
  exact List.subset_append_right _ _

theorem typed_of_goes (h : ∀ d ∈ ds, ¬d.Stops ctx) : ∀ d ∈ ds, d.isTyped = true :=
  fun d hd => Bool.eq_true_of_not_eq_false fun huntyped => h d hd (.inl huntyped)

theorem Context.OutputsConsistent.consistent (h : ctx.OutputsConsistent x vs w)
    (hds : vs.mapM (fun m => m.apply ctx x) w = (.ok ds, u)) (hgoes : ∀ d ∈ ds, ¬d.Stops ctx) :
    Consistent (ds.map (·.value)) := by
  have hall := h vs [] ds u (List.append_nil _).symm hds
  rwa [List.filter_eq_self.mpr (typed_of_goes hgoes)] at hall

/-! ### Sums -/

theorem Dataset.Sums.single (h : ¬d.Stops ctx) : Sums ctx [d] d where
  goes := List.forall_mem_singleton.mpr h
  typed := typed_of_goes (List.forall_mem_singleton.mpr h) d (List.mem_singleton_self d)
  issues := (List.append_nil _).symm
  merges := rfl

/-- Members are merged in one way. -/
theorem Dataset.Sums.unique (hd : Sums ctx ds d) (he : Sums ctx ds e)
    (hstatus : d.status = if d.issues = [] then .success else .partly)
    (hstatus' : e.status = if e.issues = [] then .success else .partly) : d = e := by
  have hissues := hd.issues.trans he.issues.symm
  have hvalue := hd.merges.unique he.merges
  obtain ⟨status, value, issues⟩ := d
  obtain ⟨status', value', issues'⟩ := e
  dsimp only at hissues hvalue hstatus hstatus'
  rw [hstatus, hstatus', hissues, hvalue]

/-- What is merged of members that go on goes on. -/
theorem Dataset.Sums.goes_on (h : Sums ctx ds d) : ¬d.Stops ctx := by
  rintro (huntyped | ⟨hissues, hearly⟩)
  · cases huntyped.symm.trans h.typed
  · rw [h.issues, Ne, List.flatMap_eq_nil_iff] at hissues
    push Not at hissues
    obtain ⟨e, he, hissues⟩ := hissues
    exact h.goes e he (.inr ⟨hissues, hearly⟩)

theorem forall₂_merges {groups : List (List Dataset)} (h : List.Forall₂ (Dataset.Sums ctx) groups ds) :
    List.Forall₂ MergesTo (groups.map fun g => g.map (·.value)) (ds.map (·.value)) := by
  rw [List.forall₂_map_left_iff, List.forall₂_map_right_iff]
  exact h.imp fun _ _ hsums => hsums.merges

theorem goes_flatten {groups : List (List Dataset)} (h : List.Forall₂ (Dataset.Sums ctx) groups ds) :
    ∀ e ∈ groups.flatten, ¬e.Stops ctx := by
  induction h with
  | nil => exact List.forall_mem_nil _
  | cons hsums _ ih =>
    rw [List.flatten_cons, List.forall_mem_append]
    exact ⟨hsums.goes, ih⟩

theorem goes_of_groups {groups : List (List Dataset)} (h : List.Forall₂ (Dataset.Sums ctx) groups ds) :
    ∀ e ∈ ds, ¬e.Stops ctx := by
  induction h with
  | nil => exact List.forall_mem_nil _
  | cons hsums _ ih => exact List.forall_mem_cons.mpr ⟨hsums.goes_on, ih⟩

/-- Sums of sums are sums of all. -/
theorem Dataset.Sums.flatten {objects : Nat → Value} {groups : List (List Dataset)}
    (hgroups : List.Forall₂ (Sums ctx) groups ds) (h : Sums ctx ds d)
    (horderly : ∀ e ∈ groups.flatten, e.value.Orderly objects)
    (hconsistent : Consistent (groups.flatten.map (·.value))) : Sums ctx groups.flatten d where
  goes := goes_flatten hgroups
  typed := h.typed
  issues := by
    rw [h.issues]
    clear h horderly hconsistent
    induction hgroups with
    | nil => rfl
    | cons hsums _ ih =>
      rw [List.flatMap_cons, hsums.issues, ih, List.flatten_cons, List.flatMap_append]
  merges := by
    have hvalues : ∀ v ∈ groups.flatten.map (·.value), v.Orderly objects :=
      List.forall_mem_map.mpr horderly
    rw [List.map_flatten] at hvalues hconsistent ⊢
    exact mergesTo_flatten (forall₂_merges hgroups) hvalues hconsistent h.merges

/-- Members that are merged do not falter. -/
theorem Dataset.Sums.not_falters {objects : Nat → Value} (h : Sums ctx ds d)
    (hds : vs.mapM (fun m => m.apply ctx x) w = (.ok ds, u))
    (hheld : ∀ e ∈ ds, e.value.Held objects) (hconsistent : Consistent (ds.map (·.value))) :
    ¬ctx.Falters x vs w := by
  rintro ⟨front, back, ds', v, rfl, hds', hstops⟩
  obtain ⟨first, rest, v', hfirst, -, rfl⟩ := mapM_append_iff.mp hds
  cases hfirst.symm.trans hds'
  rcases hstops with ⟨e, he, hstop⟩ | hharmony
  · exact h.goes e (List.mem_append_left _ he) hstop
  · refine hharmony ((h.merges.harmonious (List.forall_mem_map.mpr hheld) hconsistent).sublist ?_)
    rw [List.map_append]
    exact List.sublist_append_left _ _

end

/-! ### One intersection -/

section

variable {ctx : Context} {I : Found → Prop} {U : Schema → Prop} {objects : Nat → Value}
  (hclosed : ctx.Closed I U) (horderly : ctx.Orderly objects U) {n : Nat} {l : Label} {x : Value}
  (hx : x.Sound objects) (hheld : x.Held objects) {members : List Schema}
  {w v u : World} {d : Dataset} {ds : List Dataset}

/-- An intersection whose members are merged comes to that. -/
theorem intersection_of_sums {vs : List Validator}
    (hds : vs.mapM (fun m => m.apply ctx x) w = (.ok ds, u)) (h : Dataset.Sums ctx ds d)
    (hstatus : d.status = if d.issues = [] then .success else .partly) :
    intersection l vs ctx (.fresh x) w = (.ok d, u) := by
  have hsteps := steps_of_mapM (g := .start (.fresh x) []) hds fun e he hbreaks =>
    h.goes e he (.inr hbreaks)
  obtain ⟨hall, houtput⟩ := Gathering.output_withMembers (d := .fresh x) (typed_of_goes h.goes)
  have hissues : ((Gathering.start (.fresh x) []).withMembers ds).dataset.issues = d.issues := by
    rw [h.issues]
    exact List.nil_append _
  rw [intersection_fresh, bind_of_eq_ok hsteps]
  have hmerges := h.merges
  cases hvalues : ds.map (·.value) with
  | nil =>
    rw [hvalues] at hmerges
    exact hmerges.elim
  | cons first rest =>
    rw [hvalues] at hmerges
    rw [conclude_merged hall (houtput.trans hvalues) hmerges, hissues, ← hstatus]

include hclosed horderly hx hheld

/-- An intersection that ends without a fault has merged its members, or has failed where they
falter. -/
theorem meets_of_intersection (hs : ∀ t ∈ members, U t) (hne : members ≠ []) (hI : I w.resolved)
    (h : intersection l (Schema.memberValidators members n) ctx (.fresh x) w = (.ok d, u)) :
    ctx.Meets x (Schema.memberValidators members n) w d u := by
  rw [intersection_fresh] at h
  obtain ⟨p, v, hp, hend⟩ := bind_eq_ok h
  rcases cases_of_steps hp with ⟨ds, hds, hgo, rfl⟩ |
    ⟨front, back, ds, e, hfront, hds, ⟨b, hb, hbreaks⟩, rfl, hvalue⟩
  · have hlength := length_of_mapM hclosed hs hI hds
    have hvalid := forall_of_members hclosed horderly hs hx hheld hI hds
    rcases cases_of_conclude hend with ⟨first, rest, y, htyped, houtput, hmerge, rfl, rfl⟩ |
      ⟨first, rest, i, htyped, houtput, hmerge, hi, rfl⟩ | ⟨huntyped, rfl, rfl⟩
    · have htyped := Gathering.typed_withMembers htyped
      have hvalues := (Gathering.output_withMembers htyped).2.symm.trans houtput
      refine .merged hds ⟨fun e he hstops => ?_, ?_, rfl, ?_⟩ rfl
      · rcases hstops with huntyped | hbreaks
        · cases huntyped.symm.trans (htyped e he)
        · exact hgo e he hbreaks
      · dsimp only [Dataset.isTyped]
        split <;> rfl
      · rw [hvalues]
        exact hmerge
    · have htyped := Gathering.typed_withMembers htyped
      have hvalues := (Gathering.output_withMembers htyped).2.symm.trans houtput
      refine .failed ⟨_, [], ds, v, (List.append_nil _).symm, hds, .inr fun hharmony => ?_⟩ rfl rfl
      obtain ⟨y, hy⟩ := hharmony.exists_mergesTo
        (List.forall_mem_map.mpr fun e he => ((hvalid e he).2 (htyped e he)).held)
        (by rw [hvalues]; exact List.cons_ne_nil _ _)
      rw [hvalues] at hy
      cases hmerge.symm.trans hy
    · refine .failed ⟨_, [], ds, u, (List.append_nil _).symm, hds, .inl ?_⟩ rfl rfl
      by_contra hgoes
      have htyped : ∀ e ∈ ds, e.isTyped = true :=
        typed_of_goes fun e he hstops => hgoes ⟨e, he, hstops⟩
      obtain ⟨hall, houtput⟩ := Gathering.output_withMembers (d := .fresh x) htyped
      rcases huntyped with huntyped | hnone
      · cases hall.symm.trans huntyped
      · rw [← houtput, hnone, List.length_nil] at hlength
        exact hne (List.length_eq_zero_iff.mp hlength.symm)
  · obtain ⟨-, rfl⟩ := Gathering.gives_giveUp (I := fun _ => True) ⟨v, u, trivial, hend⟩
    exact .failed ⟨front, back, ds, v, hfront, hds, .inl ⟨b, hb, .inr hbreaks⟩⟩ rfl hvalue

end

/-- A typed dataset that an intersection comes to is what its members are merged into. -/
theorem Context.Meets.sums {ctx : Context} {x : Value} {vs : List Validator} {w u : World} {d : Dataset}
    (h : ctx.Meets x vs w d u) (hd : d.isTyped = true) :
    ∃ ds, vs.mapM (fun m => m.apply ctx x) w = (.ok ds, u) ∧ d.Sums ctx ds ∧
      d.status = if d.issues = [] then .success else .partly := by
  cases h with
  | merged hds hsums hstatus => exact ⟨_, hds, hsums, hstatus⟩
  | failed _ hfailure _ =>
    rw [Dataset.isTyped, hfailure] at hd
    cases hd

/-- What intersections of the same members come to agrees: the same merged dataset in the same world,
or failures. -/
theorem Context.Meets.agree {ctx : Context} {objects : Nat → Value} {x : Value} {vs : List Validator}
    {w u v : World} {d e : Dataset}
    (hheld : ∀ ds u, vs.mapM (fun m => m.apply ctx x) w = (.ok ds, u) → (∀ d ∈ ds, d.isTyped = true) →
      ∀ d ∈ ds, d.value.Held objects)
    (hconsistent : ctx.OutputsConsistent x vs w) (hd : ctx.Meets x vs w d u)
    (he : ctx.Meets x vs w e v) : d.status = e.status ∧ d.value = e.value := by
  have apart {ds : List Dataset} {d : Dataset} {u : World}
      (hds : vs.mapM (fun m => m.apply ctx x) w = (.ok ds, u)) (h : Dataset.Sums ctx ds d) :
      ¬ctx.Falters x vs w :=
    h.not_falters hds (hheld ds u hds (typed_of_goes h.goes)) (hconsistent.consistent hds h.goes)
  cases hd with
  | merged hds hsums hstatus =>
    cases he with
    | merged hds' hsums' hstatus' =>
      cases hds.symm.trans hds'
      cases hsums.unique hsums' hstatus hstatus'
      exact ⟨rfl, rfl⟩
    | failed hfalters => exact absurd hfalters (apart hds hsums)
  | failed hfalters hstatus hvalue =>
    cases he with
    | merged hds hsums _ => exact absurd hfalters (apart hds hsums)
    | failed _ hstatus' hvalue' => exact ⟨hstatus.trans hstatus'.symm, hvalue.trans hvalue'.symm⟩

/-! ### Trees of intersections -/

namespace Nest

section

variable (ctx : Context) (I : Found → Prop) (x : Value) (n : Nat)

/-- What a tree comes to sums its leaves up, or it stops an intersection and its leaves falter. -/
def SumsOrFalters (t : Nest) : Prop :=
  ∀ w u d, I w.resolved → ctx.OutputsConsistent x (leafValidators n [t]) w →
    ((t.schema (.intersection .null)).validatorUpTo n).apply ctx x w = (.ok d, u) →
    (∃ ds, (leafValidators n [t]).mapM (fun m => m.apply ctx x) w = (.ok ds, u) ∧ d.Sums ctx ds) ∨
      d.Stops ctx ∧ ctx.Falters x (leafValidators n [t]) w

/-- A tree comes to the sum of its leaves when they can be merged. -/
def SumsUp (t : Nest) : Prop :=
  ∀ w u ds, I w.resolved → ctx.OutputsConsistent x (leafValidators n [t]) w →
    (leafValidators n [t]).mapM (fun m => m.apply ctx x) w = (.ok ds, u) →
    (∀ d ∈ ds, ¬d.Stops ctx) → Harmonious (ds.map (·.value)) →
    ∃ d, ((t.schema (.intersection .null)).validatorUpTo n).apply ctx x w = (.ok d, u) ∧ d.Sums ctx ds

end

theorem ne_nil_of_length {members : List Nest} (h : 2 ≤ members.length) : members ≠ [] := by
  rintro rfl
  simp at h

section

variable {ctx : Context} {I : Found → Prop} {U : Schema → Prop} {objects : Nat → Value}
  (hclosed : ctx.Closed I U) {n : Nat} {x : Value} {ts : List Nest}
  (hts : ∀ t ∈ ts, U (t.schema (.intersection .null))) {w u : World} (hI : I w.resolved)
  {d : Dataset} {ds es : List Dataset}

include hclosed hts

omit hclosed in
theorem mem_schemas : ∀ s ∈ schemas (.intersection .null) ts, U s := by
  rw [schemas_eq_map]
  exact List.forall_mem_map.mpr hts

include hI

/-- Trees come to the sums of their leaves, one after another, or some stop an intersection and the
leaves falter. -/
theorem groups_or_falters (hall : ∀ t ∈ ts, t.SumsOrFalters ctx I x n)
    (hconsistent : ctx.OutputsConsistent x (leafValidators n ts) w)
    (h : (treeValidators (.intersection .null) n ts).mapM (fun m => m.apply ctx x) w = (.ok ds, u)) :
    (∃ groups, List.Forall₂ (Dataset.Sums ctx) groups ds ∧
      (leafValidators n ts).mapM (fun m => m.apply ctx x) w = (.ok groups.flatten, u)) ∨
    (∃ d ∈ ds, d.Stops ctx) ∧ ctx.Falters x (leafValidators n ts) w := by
  induction ts generalizing w ds with
  | nil =>
    cases h
    exact .inl ⟨[], .nil, rfl⟩
  | cons t rest ih =>
    rw [List.forall_mem_cons] at hall hts
    rw [leafValidators_cons] at hconsistent ⊢
    rw [treeValidators_cons, List.mapM_cons] at h
    obtain ⟨d, v, hd, h⟩ := bind_eq_ok h
    obtain ⟨ds', v', hds, h⟩ := bind_eq_ok h
    cases h
    rcases hall.1 w v d hI hconsistent.left hd with ⟨es, hes, hsums⟩ | ⟨hstops, hfalters⟩
    · -- the tree ends in the world in which its leaves do, so the rest starts there
      have hI' := resolved_of_apply hclosed hts.1 hI hd
      rcases ih hts.2 hI' hall.2 (hconsistent.right hes) hds with
        ⟨groups, hgroups, hrest⟩ | ⟨⟨e, he, hstops⟩, hfalters⟩
      · exact .inl ⟨es :: groups, .cons hsums hgroups, mapM_append_iff.mpr ⟨_, _, v, hes, hrest, rfl⟩⟩
      · exact .inr ⟨⟨e, List.mem_cons_of_mem _ he, hstops⟩, hfalters.after hes⟩
    · exact .inr ⟨⟨d, List.mem_cons_self, hstops⟩, hfalters.append _⟩

/-- Trees come to the sums of their leaves, one after another, when these can be merged. -/
theorem exists_groups (hall : ∀ t ∈ ts, t.SumsUp ctx I x n)
    (hconsistent : ctx.OutputsConsistent x (leafValidators n ts) w)
    (hes : (leafValidators n ts).mapM (fun m => m.apply ctx x) w = (.ok es, u))
    (hgoes : ∀ e ∈ es, ¬e.Stops ctx) (hharmony : Harmonious (es.map (·.value))) :
    ∃ groups ds, es = groups.flatten ∧ List.Forall₂ (Dataset.Sums ctx) groups ds ∧
      (treeValidators (.intersection .null) n ts).mapM (fun m => m.apply ctx x) w = (.ok ds, u) := by
  induction ts generalizing w es with
  | nil =>
    cases hes
    exact ⟨[], [], rfl, .nil, rfl⟩
  | cons t rest ih =>
    rw [List.forall_mem_cons] at hall hts
    rw [leafValidators_cons] at hconsistent hes
    obtain ⟨ds, ds', v, hds, hrest, rfl⟩ := mapM_append_iff.mp hes
    rw [List.forall_mem_append] at hgoes
    rw [List.map_append] at hharmony
    obtain ⟨d, hd, hsums⟩ := hall.1 w v ds hI hconsistent.left hds hgoes.1
      (hharmony.sublist (List.sublist_append_left _ _))
    obtain ⟨groups, es, rfl, hgroups, hes⟩ := ih hts.2 (resolved_of_apply hclosed hts.1 hI hd) hall.2
      (hconsistent.right hds) hrest hgoes.2 (hharmony.sublist (List.sublist_append_right _ _))
    refine ⟨ds :: groups, d :: es, rfl, .cons hsums hgroups, ?_⟩
    rw [treeValidators_cons, List.mapM_cons, bind_of_eq_ok hd, bind_of_eq_ok hes]
    rfl

omit hclosed hts hI in
theorem exists_of_treeValidators {front back : List Validator}
    (h : treeValidators (.intersection .null) n ts = front ++ back) :
    ∃ us us', ts = us ++ us' ∧ front = treeValidators (.intersection .null) n us := by
  rw [treeValidators, schemas_eq_map, Schema.memberValidators, List.map_map,
    List.map_eq_append_iff] at h
  obtain ⟨us, us', rfl, rfl, -⟩ := h
  refine ⟨us, us', rfl, ?_⟩
  rw [treeValidators, schemas_eq_map, Schema.memberValidators, List.map_map]

variable (horderly : ctx.Orderly objects U) (hx : x.Sound objects) (hheld : x.Held objects)

include horderly hx hheld

omit hI in
/-- Leaves that are merged have orderly values. -/
theorem orderly_of_leaves (hI : I w.resolved)
    (hds : (leafValidators n ts).mapM (fun m => m.apply ctx x) w = (.ok ds, u))
    (htyped : ∀ d ∈ ds, d.isTyped = true) : ∀ d ∈ ds, d.value.Orderly objects := fun d hd =>
  (forall_of_members hclosed horderly (mem_leavesAll hclosed (fun _ => rfl) hts) hx hheld hI hds d hd).2 (htyped d hd)

/-- An intersection of trees comes to what one of all their leaves comes to. -/
theorem meets_of_intersections (hne : ts ≠ []) (hall : ∀ t ∈ ts, t.SumsOrFalters ctx I x n)
    (hconsistent : ctx.OutputsConsistent x (leafValidators n ts) w) {l : Label}
    (h : intersection l (treeValidators (.intersection .null) n ts) ctx (.fresh x) w = (.ok d, u)) :
    ctx.Meets x (leafValidators n ts) w d u := by
  have hmembers : schemas (.intersection .null) ts ≠ [] := by
    rw [schemas_eq_map]
    exact mt List.map_eq_nil_iff.mp hne
  cases meets_of_intersection hclosed horderly hx hheld (mem_schemas hts) hmembers hI h with
  | merged hds hsums hstatus =>
    rcases groups_or_falters hclosed hts hI hall hconsistent hds with
      ⟨groups, hgroups, hleaves⟩ | ⟨⟨e, he, hstops⟩, -⟩
    · have hgoes := goes_flatten hgroups
      have hvalues := orderly_of_leaves hclosed hts horderly hx hheld hI hleaves (typed_of_goes hgoes)
      have hall := hconsistent.consistent hleaves hgoes
      exact .merged hleaves (hsums.flatten hgroups hvalues hall) hstatus
    · exact absurd hstops (hsums.goes e he)
  | failed hfalters hstatus hvalue =>
    refine .failed ?_ hstatus hvalue
    obtain ⟨front, back, ds, v, hsplit, hds, hstops⟩ := hfalters
    obtain ⟨us, us', rfl, rfl⟩ := exists_of_treeValidators hsplit
    rw [leafValidators_append] at hconsistent ⊢
    refine Context.Falters.append ?_ _
    rw [List.forall_mem_append] at hts hall
    rcases groups_or_falters hclosed hts.1 hI hall.1 hconsistent.left hds with
      ⟨groups, hgroups, hleaves⟩ | ⟨-, hfalters⟩
    · -- all the trees before go on, so their outputs cannot be merged, nor can those of the leaves
      refine ⟨_, [], _, _, (List.append_nil _).symm, hleaves, .inr fun hharmony => ?_⟩
      rw [List.map_flatten] at hharmony
      rcases hstops with ⟨e, he, hstop⟩ | hclash
      · exact goes_of_groups hgroups e he hstop
      · exact hclash (harmonious_of_groups (forall₂_merges hgroups) hharmony)
    · exact hfalters

omit hts hI in
/-- Whatever a tree of intersections comes to sums its leaves up, or stops an intersection. -/
theorem sumsOrFalters {P : Schema → Prop} {t : Nest} (hproper : t.Proper P)
    (ht : U (t.schema (.intersection .null))) : t.SumsOrFalters ctx I x n := by
  induction hproper with
  | @leaf s _ =>
    intro w u d hI hconsistent h
    change (s.validatorUpTo n).apply ctx x w = _ at h
    have hds : (leafValidators n [.leaf s]).mapM (fun m => m.apply ctx x) w = (.ok [d], u) := by
      rw [show leafValidators n [.leaf s] = [s.validatorUpTo n] from rfl, List.mapM_cons,
        bind_of_eq_ok h]
      rfl
    by_cases hstops : d.Stops ctx
    · exact .inr ⟨hstops, _, [], [d], u, (List.append_nil _).symm, hds,
        .inl ⟨d, List.mem_singleton_self d, hstops⟩⟩
    · exact .inl ⟨[d], hds, .single hstops⟩
  | @node members hlength _ ih =>
    intro w u d hI hconsistent h
    rw [leafValidators_node] at hconsistent ⊢
    have hmembers := mem_of_node hclosed (fun _ => rfl) ht
    rw [schema, Schema.validatorUpTo_intersection] at h
    cases meets_of_intersections hclosed hmembers hI horderly hx hheld (ne_nil_of_length hlength)
        (fun t ht => ih t ht (hmembers t ht)) hconsistent (toEffect_eq_ok h) with
    | merged hds hsums _ => exact .inl ⟨_, hds, hsums⟩
    | failed hfalters hstatus _ =>
      refine .inr ⟨.inl ?_, hfalters⟩
      rw [Dataset.isTyped, hstatus]
      rfl

/-- An intersection of trees whose leaves can be merged comes to the sum of the leaves. -/
theorem exists_intersections (hne : ts ≠ []) (hall : ∀ t ∈ ts, t.SumsUp ctx I x n)
    (hconsistent : ctx.OutputsConsistent x (leafValidators n ts) w) (l : Label)
    (hes : (leafValidators n ts).mapM (fun m => m.apply ctx x) w = (.ok es, u))
    (hgoes : ∀ e ∈ es, ¬e.Stops ctx) (hharmony : Harmonious (es.map (·.value))) :
    ∃ d, intersection l (treeValidators (.intersection .null) n ts) ctx (.fresh x) w = (.ok d, u) ∧
      d.Sums ctx es ∧ d.status = if d.issues = [] then .success else .partly := by
  have hvalues := orderly_of_leaves hclosed hts horderly hx hheld hI hes (typed_of_goes hgoes)
  have hsame := hconsistent.consistent hes hgoes
  obtain ⟨groups, ds, rfl, hgroups, hds⟩ :=
    exists_groups hclosed hts hI hall hconsistent hes hgoes hharmony
  have hgo := goes_of_groups hgroups
  have horder := orderly_of_mapM hclosed horderly (mem_schemas hts) hx hheld hI hds (typed_of_goes hgo)
  have hnone : ds.map (·.value) ≠ [] := by
    intro hnone
    have hlength := length_of_mapM hclosed (mem_schemas hts) hI hds
    rw [hnone, schemas_eq_map, List.length_map] at hlength
    exact hne (List.length_eq_zero_iff.mp hlength.symm)
  rw [List.map_flatten] at hharmony
  obtain ⟨y, hy⟩ := (harmonious_of_groups (forall₂_merges hgroups) hharmony).exists_mergesTo
    (fun v hv => (horder v hv).held) hnone
  let issues := ds.flatMap (·.issues)
  let d : Dataset := ⟨if issues = [] then .success else .partly, y, issues⟩
  have hsums : d.Sums ctx ds := ⟨hgo, by dsimp only [d, Dataset.isTyped]; split <;> rfl, rfl, hy⟩
  exact ⟨d, intersection_of_sums hds hsums rfl, hsums.flatten hgroups hvalues hsame, rfl⟩

/-- An intersection of trees comes to whatever its leaves are merged into. -/
theorem intersections_of_sums (hne : ts ≠ []) (hall : ∀ t ∈ ts, t.SumsUp ctx I x n)
    (hconsistent : ctx.OutputsConsistent x (leafValidators n ts) w) {l : Label}
    (hes : (leafValidators n ts).mapM (fun m => m.apply ctx x) w = (.ok es, u)) (h : d.Sums ctx es)
    (hstatus : d.status = if d.issues = [] then .success else .partly) :
    intersection l (treeValidators (.intersection .null) n ts) ctx (.fresh x) w = (.ok d, u) := by
  have hvalues := orderly_of_leaves hclosed hts horderly hx hheld hI hes (typed_of_goes h.goes)
  have hharmony := h.merges.harmonious (List.forall_mem_map.mpr fun e he => (hvalues e he).held)
    (hconsistent.consistent hes h.goes)
  obtain ⟨e, he, hsums, hstatus'⟩ := exists_intersections hclosed hts hI horderly hx hheld hne hall
    hconsistent l hes h.goes hharmony
  rw [h.unique hsums hstatus hstatus']
  exact he

omit hts hI in
/-- A tree of intersections comes to the sum of its leaves when they can be merged. -/
theorem sumsUp {P : Schema → Prop} {t : Nest} (hproper : t.Proper P)
    (ht : U (t.schema (.intersection .null))) : t.SumsUp ctx I x n := by
  induction hproper with
  | @leaf s _ =>
    intro w u ds hI hconsistent hds hgoes hharmony
    rw [show leafValidators n [.leaf s] = [s.validatorUpTo n] from rfl, List.mapM_cons] at hds
    obtain ⟨d, v, hd, hrest⟩ := bind_eq_ok hds
    cases hrest
    exact ⟨d, hd, .single (hgoes d (List.mem_singleton_self d))⟩
  | @node members hlength _ ih =>
    intro w u ds hI hconsistent hds hgoes hharmony
    rw [leafValidators_node] at hconsistent hds
    have hmembers := mem_of_node hclosed (fun _ => rfl) ht
    obtain ⟨d, hd, hsums, -⟩ := exists_intersections hclosed hmembers hI horderly hx hheld
      (ne_nil_of_length hlength) (fun t ht => ih t ht (hmembers t ht)) hconsistent _ hds hgoes hharmony
    refine ⟨d, ?_, hsums⟩
    rw [schema, Schema.validatorUpTo_intersection]
    exact toEffect_of_eq_ok hd

end

section

variable {ctx : Context} {objects : Nat → Value} {P : Schema → Prop} {members : List Nest}
  (hproper : (node members).Proper P) {x : Value} (hx : x.Sound objects) (hheld : x.Held objects)
  {w : World} (horderly : ctx.Orderly objects
    (ctx.Reaches w.resolved ((node members).schema (.intersection .null))))
  (hconsistent : ctx.OutputsConsistent x
    (leafValidators (ctx.bound ((node members).schema (.intersection .null)) x) members) w)

include hproper hx hheld horderly hconsistent

/-- Nested intersections and one intersection of all their leaves: a typed dataset that one comes to
the other comes to as well, and both come to the same status and value. -/
theorem intersections_agree :
    let nested := (node members).schema (.intersection .null)
    let flat := (node members).flat (.intersection .null)
    (∀ d u, d.isTyped = true → (nested.run ctx (.fresh x) w = (.ok d, u) ↔
      flat.run ctx (.fresh x) w = (.ok d, u))) ∧
    ∀ d u e v, nested.run ctx (.fresh x) w = (.ok d, u) → flat.run ctx (.fresh x) w = (.ok e, v) →
      d.status = e.status ∧ d.value = e.value := by
  intro nested flat
  let n := ctx.bound nested x
  have hclosed := ctx.closed_reaches w.resolved nested
  have hI := ctx.leads_reaches w.resolved nested
  have hmembers := mem_of_node hclosed (fun _ => rfl) .start
  have hleaves := mem_leavesAll hclosed (fun _ => rfl) hmembers
  obtain ⟨hlength, hall⟩ : 2 ≤ members.length ∧ ∀ t ∈ members, t.Proper P := by
    cases hproper with
    | node hlength hall => exact ⟨hlength, hall⟩
  have hne := ne_nil_of_length hlength
  have hnested : nested.run ctx (.fresh x) =
      intersection nested.label (treeValidators (.intersection .null) n members) ctx (.fresh x) :=
    Schema.run_intersection ctx .null _ x
  have hflat : flat.run ctx (.fresh x) =
      intersection flat.label (leafValidators n members) ctx (.fresh x) := by
    have hrun := Schema.run_intersection ctx .null (leavesAll members) x
    rwa [ctx.bound_nest (.inr rfl) members x] at hrun
  have hmeets {d : Dataset} {u : World} (h : nested.run ctx (.fresh x) w = (.ok d, u)) :
      ctx.Meets x (leafValidators n members) w d u := by
    rw [hnested] at h
    exact meets_of_intersections hclosed hmembers hI horderly hx hheld hne
      (fun t ht => sumsOrFalters hclosed horderly hx hheld (hall t ht) (hmembers t ht)) hconsistent h
  have hmeets' {d : Dataset} {u : World} (h : flat.run ctx (.fresh x) w = (.ok d, u)) :
      ctx.Meets x (leafValidators n members) w d u := by
    rw [hflat] at h
    exact meets_of_intersection hclosed horderly hx hheld hleaves (leaves_ne_nil hproper) hI h
  refine ⟨fun d u hd => ⟨fun h => ?_, fun h => ?_⟩, fun d u e v h h' => ?_⟩
  · obtain ⟨ds, hds, hsums, hstatus⟩ := (hmeets h).sums hd
    rw [hflat]
    exact intersection_of_sums hds hsums hstatus
  · obtain ⟨ds, hds, hsums, hstatus⟩ := (hmeets' h).sums hd
    rw [hnested]
    exact intersections_of_sums hclosed hmembers hI horderly hx hheld hne
      (fun t ht => sumsUp hclosed horderly hx hheld (hall t ht) (hmembers t ht)) hconsistent hds hsums
      hstatus
  · have held (ds : List Dataset) (u : World)
        (hds : (leafValidators n members).mapM (fun m => m.apply ctx x) w = (.ok ds, u))
        (htyped : ∀ e ∈ ds, e.isTyped = true) : ∀ e ∈ ds, e.value.Held objects := fun e he =>
      (orderly_of_leaves hclosed hmembers horderly hx hheld hI hds htyped e he).held
    exact Context.Meets.agree held hconsistent (hmeets h) (hmeets' h')

end

end Nest

end Conform
