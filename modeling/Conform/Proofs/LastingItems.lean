/-
  Conform/Proofs/LastingItems.lean
  ================================
  **What lasts of lists, tuples and sets.**  The container that is made of lasting
  items has the same items under the same schemas, so it is made once more
  (`Schema.Remade`).  Members of a set may have become one; then there are fewer of
  them, which is why the set must not have a least size.
-/
import Conform.Proofs.Lasting
import Conform.Proofs.Totality

namespace Conform

open Validator

namespace Value

theorem Whole.contents {v : Value} (h : v.Whole) : ∀ x ∈ v.contents, x.Whole := by
  cases h with
  | list hitems => exact hitems
  | tuple hitems => exact hitems
  | set hitems => exact hitems
  | _ => exact fun x hx => by cases hx

end Value

/-! ### Layouts -/

theorem Validator.sizeFinding?_of_le {l l' : Label} {limits : Limits} {x y : Value} {m n : Nat}
    (h : sizeFinding? l limits x n = .ok none) (hle : m ≤ n)
    (hleast : limits.least = none ∨ m = n) : sizeFinding? l' limits y m = .ok none := by
  rw [sizeFinding?_eq_none_iff] at h ⊢
  refine ⟨?_, fun limit hlimit => hle.trans (h.2 limit hlimit)⟩
  rcases hleast with hnone | rfl
  · exact fun limit hlimit => by cases hnone.symm.trans hlimit
  · exact h.1

namespace Schema

variable {items : List Schema} {rest : Option Schema} {i : Nat} {xs ys : List Value}

/-- What holds of the parts and other values holds of the other values in the same places. -/
theorem positions_of_forall₂ {Q : Position → Value → Prop}
    (h : List.Forall₂ Q (positions items rest i xs) ys) :
    ∀ p ∈ positions items rest i ys, ∃ q ∈ positions items rest i xs,
      q.schema = p.schema ∧ Q q p.value := by
  fun_induction positions items rest i xs generalizing ys with
  | case1 items rest i =>
    cases h
    intro p hp
    simp [positions] at hp
  | case2 rest i x xs s ss ih =>
    cases h with
    | @cons _ y _ ys hy hys =>
      rw [positions, List.forall_mem_cons]
      refine ⟨⟨_, List.mem_cons_self, rfl, hy⟩, fun p hp => ?_⟩
      obtain ⟨q, hq, hqp⟩ := ih hys p hp
      exact ⟨q, List.mem_cons_of_mem _ hq, hqp⟩
  | case3 i x xs r ih =>
    cases h with
    | @cons _ y _ ys hy hys =>
      rw [positions, List.forall_mem_cons]
      refine ⟨⟨_, List.mem_cons_self, rfl, hy⟩, fun p hp => ?_⟩
      obtain ⟨q, hq, hqp⟩ := ih hys p hp
      exact ⟨q, List.mem_cons_of_mem _ hq, hqp⟩
  | case4 =>
    cases h
    intro p hp
    simp [positions] at hp

variable {s : Schema} {names : TypeNames} {x y : Value} {parts : List Position}
  {make : List Value → Except Fault Value} {Q : Position → Value → Prop}

/-- A container made of its parts has no fewer parts to be looked at again, each of them under the
schema of a part that it was made of. -/
structure Remade (s : Schema) (names : TypeNames) (parts : List Position)
    (Q : Position → Value → Prop) (y : Value) : Prop where
  objection : s.objection? names y = .ok none
  layout : ∃ again make, s.layout? y = some (again, make) ∧ make (again.map (·.value)) = .ok y ∧
    ∀ p ∈ again, ∃ q ∈ parts, q.schema = p.schema ∧ Q q p.value

theorem remade_array {m : Value} {limits : Limits} {item : Schema}
    (hobjection : (Schema.array m limits item).objection? names x = .ok none)
    (hlayout : (Schema.array m limits item).layout? x = some (parts, make))
    (hys : List.Forall₂ Q parts ys) (hmake : make ys = .ok y) :
    (Schema.array m limits item).Remade names parts Q y := by
  cases x with
  | list id flavor xs =>
    cases hlayout
    cases hmake
    have hlength : ys.length = xs.length := by simpa using hys.length_eq.symm
    refine ⟨sizeFinding?_of_le hobjection hlength.le (.inr hlength), _, _, rfl, ?_, fun p hp => ?_⟩
    · congr 2
      simp [List.mapIdx_eq_zipIdx_map, Function.comp_def]
    · obtain ⟨i, hi, rfl⟩ := List.mem_mapIdx.mp hp
      obtain ⟨q, hq, hqy⟩ := exists_left_of_mem hys (List.getElem_mem hi)
      obtain ⟨j, hj, rfl⟩ := List.mem_mapIdx.mp hq
      exact ⟨_, hq, rfl, hqy⟩
  | _ => cases hlayout

theorem remade_set {m : Value} {limits : Limits} {item : Schema} (hleast : limits.least = none)
    (hobjection : (Schema.set m limits item).objection? names x = .ok none)
    (hlayout : (Schema.set m limits item).layout? x = some (parts, make))
    (hys : List.Forall₂ Q parts ys) (hmake : make ys = .ok y) :
    (Schema.set m limits item).Remade names parts Q y := by
  cases x with
  | set id frozen xs =>
    cases hlayout
    have hlength : ys.length = xs.length := by simpa using hys.length_eq.symm
    rcases hmembers : Value.toMembers ys with f | members
    · simp only [hmembers] at hmake
      cases hmake
    simp only [hmembers] at hmake
    cases hmake
    -- the members are told apart now, so the second time none is lost
    obtain ⟨-, hmem, hle, hagain⟩ := Value.members_of_toMembers hmembers
    refine ⟨sizeFinding?_of_le hobjection (hle.trans hlength.le) (.inl hleast), _, _, rfl, ?_,
      fun p hp => ?_⟩
    · simp only [List.map_map, Function.comp_def, List.map_id']
      rw [hagain]
      rfl
    · obtain ⟨v, hv, rfl⟩ := List.mem_map.mp hp
      obtain ⟨q, hq, hqy⟩ := exists_left_of_mem hys (hmem v hv)
      obtain ⟨j, hj, rfl⟩ := List.mem_map.mp hq
      exact ⟨_, hq, rfl, hqy⟩
  | _ => cases hlayout

theorem remade_tuple {m : Value} {items : List Schema} {rest : Option Schema}
    (hobjection : (Schema.tuple m items rest).objection? names x = .ok none)
    (hlayout : (Schema.tuple m items rest).layout? x = some (parts, make))
    (hys : List.Forall₂ Q parts ys) (hmake : make ys = .ok y) :
    (Schema.tuple m items rest).Remade names parts Q y := by
  obtain ⟨xs, hxs, heq⟩ := Option.map_eq_some_iff.mp hlayout
  cases heq
  cases hmake
  have hfits : (rest = none → xs.length = items.length) ∧
      (rest.isSome = true → items.length ≤ xs.length) := by
    simp only [objection?, hxs] at hobjection
    split at hobjection
    · cases hobjection
    · next hexact =>
      split at hobjection
      · cases hobjection
      · next hleast =>
        refine ⟨fun hnone => ?_, fun hsome => ?_⟩
        · simpa [hnone] using hexact
        · simpa [hsome] using hleast
  have hlength : ys.length = xs.length := by
    rw [← hys.length_eq]
    exact length_positions fun hnone => (hfits.1 hnone).le
  have hle : rest = none → ys.length ≤ items.length := fun hnone => by
    rw [hlength, hfits.1 hnone]
  refine ⟨?_, _, _, rfl, ?_, positions_of_forall₂ hys⟩
  · simp only [objection?, sequence?, Value.ofTuple]
    rw [if_neg, if_neg]
    · cases rest with
      | none => simp
      | some r => simpa [hlength] using hfits.2 rfl
    · cases rest with
      | none => simpa [hlength] using hfits.1 rfl
      | some r => simp
  · rw [values_of_positions hle]

/-- A container that is made of its parts can be made of itself. -/
theorem remade_of_layout {objects : Nat → Value} (hs : s.Repeats objects)
    (hobjection : s.objection? names x = .ok none) (hlayout : s.layout? x = some (parts, make))
    (hys : List.Forall₂ Q parts ys) (hmake : make ys = .ok y) : s.Remade names parts Q y := by
  cases s with
  | array => exact remade_array hobjection hlayout hys hmake
  | set => exact remade_set hs hobjection hlayout hys hmake
  | tuple => exact remade_tuple hobjection hlayout hys hmake
  | _ => cases hlayout

theorem made_of_layout (hlayout : s.layout? x = some (parts, make)) (hmake : make ys = .ok y) :
    y.IsMade ∧ y.isUndefined = false := by
  cases makes_of_layout hlayout hmake with
  | list => exact ⟨fun _ h => (by cases h), rfl⟩
  | @set frozen members =>
    refine ⟨?_, rfl⟩
    cases frozen <;> cases members <;> exact fun _ h => by cases h
  | tuple =>
    refine ⟨?_, rfl⟩
    cases ys <;> exact fun _ h => by cases h

end Schema

/-! ### Runs over parts -/

section

variable {ctx : Context} {objects : Nat → Value} {U : Schema → Prop} {R : Runs}

/-- Valid parts make a path, along which their values are gathered. -/
theorem Gathering.path_of_values {parts : List Position} {ys : List Value}
    (h : List.Forall₂ (fun p v => R p.schema p.value (.valid v)) parts ys) (d : Dataset) :
    Path ctx (PartBrings R) parts (.start d []) (.going ⟨d, ys, true⟩) := by
  have hputs : List.Forall₂ (fun p put => PartBrings R p (.plain put)) parts
      (ys.map fun v output => output ++ [v]) := by
    rw [List.forall₂_map_right_iff]
    exact h.imp fun p v hv => PartBrings.run hv
  have hpath := path_of_puts ctx hputs (.start d [])
  rwa [foldl_appends (fun v => [v]), List.flatMap_singleton', start, List.nil_append] at hpath

theorem Schema.isHashable_of_layout {s : Schema} {x y : Value} {ys : List Value}
    {parts : List Position} {make : List Value → Except Fault Value}
    (hlayout : s.layout? x = some (parts, make)) (hmake : make ys = .ok y)
    (hy : y.isHashable = true) : ∀ v ∈ ys, v.isHashable = true := by
  cases makes_of_layout hlayout hmake with
  | list => cases hy
  | set hmembers => exact Value.isHashable_of_toMembers hmembers
  | tuple => exact fun v hv => Value.isHashable_of_allHashable hy hv

variable (h : ctx.Repeats objects U)

namespace Context.Repeats

include h

/-- The parts of a valid container are valid, and it is made of their values. -/
theorem values_of_path (hR : ∀ c y e, R c y e → U c ∧ ctx.Yields (fun _ => True) c y e)
    {parts : List Position} {g g' : Gathering (List Value)}
    (hp : Gathering.Path ctx (PartBrings R) parts g (.going g')) (hclean : g'.dataset.issues = []) :
    ∃ ys, List.Forall₂ (fun p v => R p.schema p.value (.valid v)) parts ys ∧
      g'.output = g.output ++ ys := by
  have hput : ∀ p ∈ parts, ∀ c, PartBrings R p c → c.issues = [] →
      ∃ put, (∃ v, R p.schema p.value (.valid v) ∧ put = fun o => o ++ [v]) ∧ c = .plain put := by
    intro p _ c hc hissues
    cases hc with
    | @run part hrun =>
      have hvalid := h.valid_of_clean (hR _ _ _ hrun).1 (hR _ _ _ hrun).2
        (List.map_eq_nil_iff.mp hissues)
      rw [hvalid] at hrun ⊢
      exact ⟨_, ⟨part.value, hrun, rfl⟩, rfl⟩
  obtain ⟨puts, hputs, houtput⟩ := Gathering.puts_of_path hput hp hclean
  have hvalues : ∃ ys, List.Forall₂ (fun p v => R p.schema p.value (.valid v)) parts ys ∧
      puts = ys.map fun v o => o ++ [v] := by
    clear houtput hput hp
    induction hputs with
    | nil => exact ⟨[], .nil, rfl⟩
    | cons hv _ ih =>
      obtain ⟨v, hrun, rfl⟩ := hv
      obtain ⟨ys, hys, rfl⟩ := ih
      exact ⟨v :: ys, .cons hrun hys, rfl⟩
  obtain ⟨ys, hys, rfl⟩ := hvalues
  rw [Gathering.foldl_appends (fun v => [v]), List.flatMap_singleton'] at houtput
  exact ⟨ys, hys, houtput⟩

theorem lasts_of_sequence {s : Schema} (hs : U s) {x y : Value} (hx : x.Sound objects)
    {parts : List Position} {make : List Value → Except Fault Value} {p : Progress (List Value)}
    (hobjection : s.objection? ctx.typeNames x = .ok none)
    (hlayout : s.layout? x = some (parts, make))
    (hp : Gathering.Path ctx (PartBrings (ctx.Lasting objects U)) parts (.start (.fresh x) []) p)
    (hfinished : Gathering.Finished make p (.valid y)) : s.Lasts ctx x y := by
  obtain ⟨g, rfl, hissues, hmake⟩ := Gathering.going_of_finished hfinished
  obtain ⟨ys, hys, houtput⟩ := h.values_of_path (fun _ _ _ hrun => ⟨hrun.1, hrun.2.1⟩) hp hissues
  rw [Gathering.start, List.nil_append] at houtput
  rw [houtput] at hmake
  have hlasts : List.Forall₂ (fun p v => p.schema.Lasts ctx p.value v) parts ys := by
    refine List.forall₂_iff_get.mpr ⟨hys.length_eq, fun i hi hi' => ?_⟩
    have hrun := (List.forall₂_iff_get.mp hys).2 i hi hi'
    have hpart := hx.contents _ (Schema.mem_contents_of_layout hlayout (List.get_mem parts ⟨i, hi⟩))
    exact hrun.2.2 hpart _ rfl
  refine ⟨fun hy => ?_, fun hundefined => ?_, fun hsame => ?_⟩
  · obtain ⟨hobjection', again, make', hlayout', hmake', hagain⟩ :=
      Schema.remade_of_layout (h.repeats hs) hobjection hlayout hlasts hmake
    have hmap : s.isMap = false := by
      cases s <;> first | rfl | cases hlayout
    have hvalues : List.Forall₂ (fun p v => ctx.Answers p.schema p.value (.valid v)) again
        (again.map (·.value)) := by
      rw [List.forall₂_map_right_iff, List.forall₂_same]
      intro p hp
      obtain ⟨q, -, hschema, hlasts⟩ := hagain p hp
      rw [hschema] at hlasts
      exact hlasts.again (hy.contents _ (Schema.mem_contents_of_layout hlayout' hp))
    exact h.answers_of_outcome hs hmap (.sequence hobjection' hlayout'
      (Gathering.path_of_values hvalues (.fresh y)) (Gathering.finished_of_clean hmake'))
  · cases (Schema.made_of_layout hlayout hmake).2.symm.trans hundefined
  · exact Value.eq_of_made (.inl (Schema.made_of_layout hlayout hmake).1) hsame

/-! ### Hashable values -/

/-- What can be the key of an entry is come to again from the same value: no mapping has a part in
it, so no message has been asked for. -/
theorem answers_of_hashable {s : Schema} (hs : U s) {x y : Value}
    (hrun : ctx.Yields (fun _ => True) s x (.valid y)) (hy : y.isHashable = true) :
    ctx.Answers s x (.valid y) := by
  refine yields_induction h.closed (P := fun s x d => ∀ y, d = .valid y → y.isHashable = true →
    ctx.Answers s x (.valid y)) (fun s x d hs houtcome y hd hy => ?_) hs hrun y rfl hy
  have hmap : s.isMap = false := by
    cases s with
    | map =>
      subst hd
      cases (isHashable_of_map houtcome).symm.trans hy
    | _ => rfl
  refine h.answers_of_outcome hs hmap ?_
  have hrepeats := h.repeats hs
  cases houtcome with
  | accepted hj hverdict =>
    cases hd
    exact .accepted hj hverdict
  | rejected | objected | noneOf => cases hd
  | untyped _ htyped =>
    subst hd
    cases htyped
  | passed hrun htyped hpassed =>
    subst hd
    exact .passed (hrun.2.2 y rfl hy) htyped hpassed
  | violated => exact (Dataset.valid_ne_violate hd.symm).elim
  | spared hspared =>
    cases hd
    exact .spared hspared
  | wrapped hspared hdefault hrun => exact .wrapped hspared hdefault (hrun.2.2 y hd hy)
  | supplied hdefault hsupply hrun => exact .supplied hdefault hsupply (hrun.2.2 y hd hy)
  | overwritten | untouched | first | intersection => exact hrepeats.elim
  | behind => cases h.lazy hs
  | @sequence _ _ parts _ _ _ hobjection hlayout hp hfinished =>
    subst hd
    obtain ⟨g, rfl, hissues, hmake⟩ := Gathering.going_of_finished hfinished
    obtain ⟨ys, hys, houtput⟩ := h.values_of_path (fun _ _ _ hrun => ⟨hrun.1, hrun.2.1⟩) hp hissues
    rw [Gathering.start, List.nil_append] at houtput
    rw [houtput] at hmake
    have hhashable := Schema.isHashable_of_layout hlayout hmake hy
    have hvalues : List.Forall₂ (fun p v => ctx.Answers p.schema p.value (.valid v)) parts ys := by
      refine List.forall₂_iff_get.mpr ⟨hys.length_eq, fun i hi hi' => ?_⟩
      have hrun := (List.forall₂_iff_get.mp hys).2 i hi hi'
      exact hrun.2.2 _ rfl (hhashable _ (List.get_mem ..))
    exact .sequence hobjection hlayout (Gathering.path_of_values hvalues (.fresh x))
      (Gathering.finished_of_clean hmake)
  | map => cases hmap
  | object _ _ hfinished | record _ _ hfinished =>
    subst hd
    obtain ⟨g, -, -, hmake⟩ := Gathering.going_of_finished hfinished
    cases hmake
    cases hy

end Context.Repeats

end

end Conform
