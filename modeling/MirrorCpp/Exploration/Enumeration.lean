import MirrorCpp.Lib.Interleaving
import MirrorCpp.Exploration.Admissible

/-!
# What `enumerate` lists

A word of actor indices plays a schedule (`play`). The walk of `enumerate` follows the listing of
the words that leave an unfinished actor at most `maxPreemptions` times, and takes the first `cap`
of them (`Walked`), unless the clock stops it.
-/

namespace MirrorCpp.Schedule

open Interleaving

section
variable (actors : List ActorChain)

/-- The number of points of an actor. -/
def chainLength (i : Nat) : Nat := ((actors[i]?.map ActorChain.checkpoints).getD []).length

/-- The step chosen at `k`: the next one of its actor. -/
def stepAt (u : List Nat) (k : Nat) : Option Step :=
  u[k]?.bind fun i => actors[i]?.bind fun a =>
    a.checkpoints[(u.take k).count i]?.map (⟨a.actor.actor, ·⟩)

/-- The schedule that takes the actors in this order. -/
def play (u : List Nat) : List Step := (List.range u.length).filterMap (stepAt actors u)

/-- How far each actor is behind these choices. -/
def positions (h : List Nat) : List Nat := (List.range actors.length).map h.count

end

variable {actors : List ActorChain} {maxPreemptions cap : Nat} {clock : Nat → Option String}
  {i k : Nat} {h u v : List Nat}

theorem chainLength_of_get {a : ActorChain} (ha : actors[i]? = some a) :
    chainLength actors i = a.checkpoints.length := by simp [chainLength, ha]

theorem chainLength_of_ge (hi : actors.length ≤ i) : chainLength actors i = 0 := by
  simp [chainLength, List.getElem?_eq_none hi]

theorem positions_get (hi : i < actors.length) : (positions actors h)[i]? = some (h.count i) := by
  simp [positions, hi]

theorem positions_set (h : List Nat) (i : Nat) :
    (positions actors h).set i (h.count i + 1) = positions actors (h ++ [i]) := by
  refine List.ext_getElem (by simp [positions]) fun j hj hj' => ?_
  rw [List.getElem_set]
  by_cases hij : i = j
  · subst hij
    simp [positions]
  · simp [positions, hij, List.count_singleton]

theorem preempts_positions (h : List Nat) (i : Nat) :
    preempts actors (positions actors h) h.getLast? i = leaves (chainLength actors) h i := by
  unfold preempts leaves
  cases h.getLast? with
  | none => rfl
  | some p =>
    dsimp only
    by_cases hp : p < actors.length
    · rw [List.getD_eq_getElem?_getD, positions_get hp]
      rfl
    · have h0 : chainLength actors p = 0 := chainLength_of_ge (by omega)
      have h0' : ((actors[p]?.map ActorChain.checkpoints).getD []).length = 0 := h0
      rw [h0, h0']
      simp

/-! ## Playing a word -/

theorem stepAt_append {w : List Nat} (hk : k < h.length) :
    stepAt actors (h ++ w) k = stepAt actors h k := by
  unfold stepAt
  rw [List.getElem?_append_left hk, List.take_append_of_le_length hk.le]

theorem play_snoc {a : ActorChain} {point : String} (ha : actors[i]? = some a)
    (hp : a.checkpoints[h.count i]? = some point) :
    play actors (h ++ [i]) = play actors h ++ [⟨a.actor.actor, point⟩] := by
  have hfirst : (List.range h.length).filterMap (stepAt actors (h ++ [i])) = play actors h :=
    List.filterMap_congr fun k hk => stepAt_append (List.mem_range.mp hk)
  have hlast : stepAt actors (h ++ [i]) h.length = some ⟨a.actor.actor, point⟩ := by
    simp [stepAt, ha, hp]
  rw [play, List.length_append, List.length_singleton, List.range_succ, List.filterMap_append,
    hfirst, List.filterMap_cons, hlast, List.filterMap_nil]

/-- Every choice of a word that fits is one more step. -/
theorem point_of_fits (hf : Fits (chainLength actors) (h ++ [i])) :
    ∃ a point, actors[i]? = some a ∧ a.checkpoints[h.count i]? = some point := by
  have hi := hf i
  rw [List.count_append, List.count_singleton_self] at hi
  cases ha : actors[i]? with
  | none =>
    rw [chainLength_of_ge (List.getElem?_eq_none_iff.mp ha)] at hi
    omega
  | some a =>
    rw [chainLength_of_get ha] at hi
    exact ⟨a, _, rfl, List.getElem?_eq_getElem (by omega)⟩

/-- The steps name the chosen actors. -/
theorem map_actor_play (hf : Fits (chainLength actors) u) :
    (play actors u).map (fun s => some s.actor) =
      u.map ((actors.map fun a => a.actor.actor)[·]?) := by
  induction u using List.reverseRecOn with
  | nil => rfl
  | append_singleton h i ih =>
    obtain ⟨a, point, ha, hp⟩ := point_of_fits hf
    have hfit : Fits (chainLength actors) h := hf.of_prefix (List.prefix_append h [i])
    rw [play_snoc ha hp, List.map_append, List.map_append, ih hfit]
    simp [ha]

/-- Actors of distinct names: the schedule tells the word. -/
theorem play_injective (hn : (actors.map fun a => a.actor.actor).Nodup)
    (hu : Fits (chainLength actors) u) (hv : Fits (chainLength actors) v)
    (he : play actors u = play actors v) : u = v := by
  have hm := congrArg (List.map fun s : Step => some s.actor) he
  rw [map_actor_play hu, map_actor_play hv] at hm
  have hlt : ∀ i ∈ u, i < (actors.map fun a => a.actor.actor).length := fun i hi => by
    by_contra hge
    have h1 := hu i
    rw [chainLength_of_ge (by simpa using hge)] at h1
    have h2 := List.count_pos_iff.mpr hi
    omega
  generalize (actors.map fun a => a.actor.actor) = names at hn hm hlt
  have hlen : u.length = v.length := by simpa using congrArg List.length hm
  refine List.ext_getElem hlen fun k hk hk' => ?_
  have hname := congrArg (·[k]?) hm
  simp only [List.getElem?_map, List.getElem?_eq_getElem hk, List.getElem?_eq_getElem hk',
    Option.map_some, Option.some.injEq] at hname
  exact (List.getElem?_inj (hlt _ (List.getElem_mem hk)) hn).mp hname

/-! ## The merges of the chains -/

/-- What the actors have left behind a complete word is nothing. -/
theorem remaining_complete (hc : Complete (chainLength actors) h) :
    ∀ c ∈ remaining actors (positions actors h), c = [] := by
  intro c hm
  obtain ⟨i, hi⟩ := List.getElem?_of_mem hm
  rw [remaining, List.getElem?_zipWith] at hi
  cases ha : actors[i]? with
  | none => simp [ha] at hi
  | some a =>
    rw [ha, positions_get (List.getElem?_eq_some_iff.mp ha).1] at hi
    cases hi
    rw [hc i, chainLength_of_get ha]
    simp [ActorChain.steps]

theorem complete_of_remaining (hf : Fits (chainLength actors) h)
    (hr : ∀ c ∈ remaining actors (positions actors h), c = []) :
    Complete (chainLength actors) h := by
  intro i
  refine le_antisymm (hf i) ?_
  cases ha : actors[i]? with
  | none =>
    rw [chainLength_of_ge (List.getElem?_eq_none_iff.mp ha)]
    exact Nat.zero_le _
  | some a =>
    have hi : (remaining actors (positions actors h))[i]? = some (a.steps.drop (h.count i)) := by
      rw [remaining, List.getElem?_zipWith, ha, positions_get (List.getElem?_eq_some_iff.mp ha).1]
    have := hr _ (List.mem_of_getElem? hi)
    rw [List.drop_eq_nil_iff] at this
    rw [chainLength_of_get ha]
    simpa [ActorChain.steps] using this

/-- A merge of what is left is played by a word. -/
theorem word_of_merge {chains : List (List Step)} {xs : List Step} (hm : Merge chains xs) :
    ∀ {h : List Nat}, Fits (chainLength actors) h →
      chains = remaining actors (positions actors h) →
      ∃ w, Complete (chainLength actors) (h ++ w) ∧
        play actors (h ++ w) = play actors h ++ xs := by
  induction hm with
  | done hempty =>
    rintro h hf rfl
    refine ⟨[], ?_, by simp⟩
    rw [List.append_nil]
    exact complete_of_remaining hf hempty
  | @take chains i x c xs hi _ ih =>
    rintro h hf rfl
    have hi' := hi
    rw [remaining, List.getElem?_zipWith] at hi'
    cases ha : actors[i]? with
    | none => simp [ha] at hi'
    | some a =>
      have hlt := (List.getElem?_eq_some_iff.mp ha).1
      rw [ha, positions_get hlt] at hi'
      simp only [Option.some.injEq] at hi'
      have hp : ∃ point, a.checkpoints[h.count i]? = some point := by
        cases hp : a.checkpoints[h.count i]? with
        | some point => exact ⟨point, rfl⟩
        | none =>
          rw [List.getElem?_eq_none_iff] at hp
          rw [List.drop_eq_nil_iff.mpr (by simpa [ActorChain.steps] using hp)] at hi'
          cases hi'
      obtain ⟨point, hp⟩ := hp
      have hg := remaining_get ha (positions_get hlt) hp
      rw [hi] at hg
      obtain ⟨rfl, rfl⟩ := List.cons.inj (Option.some.inj hg)
      have hcount : h.count i < chainLength actors i := by
        rw [chainLength_of_get ha]
        exact (List.getElem?_eq_some_iff.mp hp).1
      have hset := remaining_set ha (positions_get (h := h) hlt)
      rw [positions_set] at hset
      obtain ⟨w, hw, he⟩ := ih (hf.snoc hcount) hset.symm
      have hword : h ++ i :: w = h ++ [i] ++ w := by simp
      refine ⟨i :: w, hword ▸ hw, ?_⟩
      rw [hword, he, play_snoc ha hp, List.append_assoc, List.singleton_append]

/-- A complete word plays a merge of what is left. -/
theorem merge_of_word : ∀ {w h : List Nat}, Complete (chainLength actors) (h ++ w) →
    ∃ xs, Merge (remaining actors (positions actors h)) xs ∧
      play actors (h ++ w) = play actors h ++ xs
  | [], h, hc => by
    rw [List.append_nil] at hc ⊢
    exact ⟨[], .done (remaining_complete hc), by simp⟩
  | i :: w, h, hc => by
    have hword : h ++ i :: w = h ++ [i] ++ w := by simp
    rw [hword] at hc ⊢
    obtain ⟨a, point, ha, hp⟩ := point_of_fits (hc.fits.of_prefix (List.prefix_append _ w))
    have hlt := (List.getElem?_eq_some_iff.mp ha).1
    have hset := remaining_set ha (positions_get (h := h) hlt)
    rw [positions_set] at hset
    obtain ⟨xs, hm, he⟩ := merge_of_word hc
    refine ⟨⟨a.actor.actor, point⟩ :: xs, ?_, ?_⟩
    · exact .take (remaining_get ha (positions_get hlt) hp) (hset ▸ hm)
    · rw [he, play_snoc ha hp, List.append_assoc, List.singleton_append]

theorem remaining_start :
    remaining actors (positions actors []) = actors.map ActorChain.steps := by
  have hp : positions actors [] = actors.map fun _ => 0 :=
    List.ext_getElem (by simp [positions]) fun k _ _ => by simp [positions]
  rw [hp, remaining, List.zipWith_map_right]
  exact List.zipWith_self

/-- A schedule merges the chains exactly when a complete word plays it. -/
theorem merge_iff {s : List Step} : Merge (actors.map ActorChain.steps) s ↔
    ∃ u, Complete (chainLength actors) u ∧ play actors u = s := by
  rw [← remaining_start]
  constructor
  · intro hm
    exact word_of_merge hm (fun i => by simp) rfl
  · rintro ⟨u, hu, rfl⟩
    obtain ⟨xs, hm, he⟩ := merge_of_word (h := []) hu
    exact he ▸ hm

/-! ## The walk -/

/-- The enumeration has gone on over these schedules, up to the cap, or the clock has stopped it. -/
inductive Walked (cap : Nat) (clock : Nat → Option String) (L : List (List Step))
    (r : Enumeration) : Enumeration → Prop
  | all {n : Nat} (h : r.schedules.length + L.length ≤ cap) :
      Walked cap clock L r { r with schedules := r.schedules ++ L, visits := n }
  | capped {n : Nat} (h : cap < r.schedules.length + L.length) :
      Walked cap clock L r {
        schedules := (r.schedules ++ L).take cap
        exhausted := false
        stopReason := "enumeration_limit"
        visits := n }
  | stopped {ss : List (List Step)} {reason : String} {n m : Nat} (h : clock m = some reason) :
      Walked cap clock L r {
        schedules := ss
        exhausted := false
        stopReason := reason
        visits := n }

namespace Walked

variable {L L' : List (List Step)} {r r' r'' : Enumeration}

theorem nil (h : r.schedules.length ≤ cap) : Walked cap clock [] r r := by
  have : Walked cap clock [] r { r with schedules := r.schedules ++ [], visits := r.visits } :=
    .all (by simpa using h)
  simpa using this

/-- The walk goes on where it has not been stopped. -/
theorem append (h : Walked cap clock L r r') (hr : r.exhausted = true)
    (hgo : r'.exhausted = true → r'.schedules.length ≤ cap → Walked cap clock L' r' r'')
    (hstop : r'.exhausted = false → r'' = r') : Walked cap clock (L ++ L') r r'' := by
  cases h with
  | @all n h =>
    have h' := hgo hr (by simpa using h)
    cases h' with
    | @all m h' =>
      have := @Walked.all cap clock (L ++ L') r m (by
        simp only [List.length_append] at h' ⊢
        omega)
      simpa [List.append_assoc] using this
    | @capped m h' =>
      have := @Walked.capped cap clock (L ++ L') r m (by
        simp only [List.length_append] at h' ⊢
        omega)
      simpa [List.append_assoc] using this
    | stopped h' => exact .stopped h'
  | @capped n h =>
    rw [hstop rfl]
    have := @Walked.capped cap clock (L ++ L') r n (by simp; omega)
    rw [← List.append_assoc, List.take_append_of_le_length (by simp; omega)] at this
    exact this
  | stopped h =>
    rw [hstop rfl]
    exact .stopped h

theorem foldl_stuck {f : Enumeration → Nat → Enumeration}
    (hs : ∀ r i, r.exhausted = false → f r i = r) (hr : r.exhausted = false) :
    ∀ is : List Nat, is.foldl f r = r
  | [] => rfl
  | i :: is => by rw [List.foldl_cons, hs r i hr, foldl_stuck hs hr is]

/-- A loop over the actors walks what each of its rounds does. -/
theorem foldl {f : Enumeration → Nat → Enumeration} {g : Nat → List (List Step)}
    (hs : ∀ r i, r.exhausted = false → f r i = r) : ∀ (is : List Nat) (r : Enumeration),
      (∀ t, ∀ i ∈ is, t.exhausted = true → t.schedules.length ≤ cap →
        Walked cap clock (g i) t (f t i)) → r.exhausted = true → r.schedules.length ≤ cap →
      Walked cap clock (is.flatMap g) r (is.foldl f r)
  | [], r, _, _, hc => .nil hc
  | i :: is, r, hf, hr, hc => by
    rw [List.flatMap_cons, List.foldl_cons]
    exact (hf r i List.mem_cons_self hr hc).append hr
      (foldl hs is (f r i) fun t j hj => hf t j (List.mem_cons_of_mem i hj))
      fun hstop => foldl_stuck hs hstop is

end Walked

theorem poll_cases {r : Enumeration} (hr : r.exhausted = true) :
    (∃ reason, clock r.visits = some reason ∧
      r.poll clock = { r with exhausted := false, stopReason := reason }) ∨
    r.poll clock = { r with visits := r.visits + 1 } := by
  unfold Enumeration.poll
  rw [hr]
  cases hclock : clock r.visits with
  | some reason => exact .inl ⟨reason, rfl, rfl⟩
  | none => exact .inr rfl

/-- One round of a visit, in terms of the word so far. -/
theorem visit_round (left : Nat) (h : List Nat) (r : Enumeration) (hi : i < actors.length) :
    (match actors[i]?, (positions actors h)[i]? with
      | some a, some offset =>
        match a.checkpoints[offset]? with
        | none => r
        | some point =>
          let preemptions := switches (chainLength actors) h +
            if preempts actors (positions actors h) h.getLast? i then 1 else 0
          if maxPreemptions < preemptions then r
          else visit actors maxPreemptions cap clock left
            ((positions actors h).set i (offset + 1))
            (play actors h ++ [⟨a.actor.actor, point⟩]) (some i) preemptions r
      | _, _ => r) =
    if chainLength actors i ≤ h.count i ∨
        maxPreemptions < switches (chainLength actors) (h ++ [i]) then r
    else visit actors maxPreemptions cap clock left (positions actors (h ++ [i]))
      (play actors (h ++ [i])) (h ++ [i]).getLast?
      (switches (chainLength actors) (h ++ [i])) r := by
  have ha := List.getElem?_eq_getElem hi
  generalize actors[i] = a at ha
  rw [ha, positions_get hi, switches_snoc, chainLength_of_get ha]
  dsimp only
  cases hp : a.checkpoints[h.count i]? with
  | none =>
    exact (if_pos (.inl (List.getElem?_eq_none_iff.mp hp))).symm
  | some point =>
    have hlt : ¬a.checkpoints.length ≤ h.count i := by
      have := (List.getElem?_eq_some_iff.mp hp).1
      omega
    rw [preempts_positions, positions_set, play_snoc ha hp, List.getLast?_concat]
    simp only [hlt, false_or]

/-- A visit walks the listing behind the word so far. -/
theorem visit_walked : ∀ (left : Nat) (h : List Nat) (r : Enumeration), r.exhausted = true →
    r.schedules.length ≤ cap →
    Walked cap clock ((listing (chainLength actors) actors.length maxPreemptions left h).map
        (play actors)) r
      (visit actors maxPreemptions cap clock left (positions actors h) (play actors h) h.getLast?
        (switches (chainLength actors) h) r)
  | 0, h, r, hr, hc => by
    rw [visit, listing, List.map_singleton]
    rcases @poll_cases clock r hr with ⟨reason, hclock, hp⟩ | hp <;> rw [hp]
    · exact .stopped hclock
    · dsimp only
      rw [hr, if_neg (by simp)]
      split
      · rename_i hcap
        have := @Walked.capped cap clock [play actors h] r (r.visits + 1) (by simp; omega)
        rwa [List.take_append_of_le_length hcap.ge, List.take_of_length_le hcap.le] at this
      · rename_i hcap
        have := @Walked.all cap clock [play actors h] r (r.visits + 1) (by simp; omega)
        rwa [hr] at this
  | left + 1, h, r, hr, hc => by
    rw [visit, listing, List.map_flatMap]
    have hpoll : Walked cap clock [] r (r.poll clock) := by
      rcases @poll_cases clock r hr with ⟨reason, hclock, hp⟩ | hp <;> rw [hp]
      · exact .stopped hclock
      · have := @Walked.all cap clock [] r (r.visits + 1) (by simpa using hc)
        rwa [List.append_nil] at this
    refine hpoll.append hr (fun hr hc => Walked.foldl (fun t i ht => ?_) _ _
      (fun t i hi ht hc => ?_) hr hc) fun hstop => Walked.foldl_stuck (fun t i ht => ?_) hstop _
    · rw [if_pos (by simp [ht])]
    · simp only [ht, Bool.not_true, Bool.false_eq_true, if_false]
      refine Eq.mpr (congrArg _ (visit_round left h t (List.mem_range.mp hi))) ?_
      split
      · exact .nil hc
      · exact visit_walked left (h ++ [i]) t ht hc
    · rw [if_pos (by simp [ht])]

/-- The walk has as many steps to choose as the chains have points. -/
theorem length_serial : (serial (chainLength actors) actors.length).length =
    (actors.map ActorChain.steps).flatten.length := by
  have hl : (List.range actors.length).map (chainLength actors) =
      actors.map fun a => a.checkpoints.length := by
    refine List.ext_getElem (by simp) fun k hk hk' => ?_
    simp only [List.length_map] at hk'
    simp [chainLength, hk']
  simp only [serial, List.length_flatMap, List.length_replicate, List.length_flatten,
    List.map_map, hl, Function.comp_def, ActorChain.steps, List.length_map]

section
variable (actors maxPreemptions)

/-- The words the walk follows. -/
def words : List (List Nat) :=
  listing (chainLength actors) actors.length maxPreemptions
    (actors.map ActorChain.steps).flatten.length []

end

theorem mem_words : u ∈ words actors maxPreemptions ↔ Complete (chainLength actors) u ∧
    switches (chainLength actors) u ≤ maxPreemptions := by
  have hserial := @complete_serial (chainLength actors) actors.length fun i => chainLength_of_ge
  rw [words, mem_listing hserial (fun i => chainLength_of_ge) (by simp [length_serial])
    (fun i => by simp) (Nat.zero_le _)]
  simp

theorem sorted_words : (words actors maxPreemptions).Pairwise (· < ·) := sorted_listing _ []

/-- The words play distinct schedules. -/
theorem nodup_play_words (hn : (actors.map fun a => a.actor.actor).Nodup) :
    ((words actors maxPreemptions).map (play actors)).Nodup := by
  refine List.Nodup.map_on (fun u hu v hv he => ?_) (sorted_words.imp fun h => ?_)
  · exact play_injective hn (mem_words.mp hu).1.fits (mem_words.mp hv).1.fits he
  · rintro rfl
    exact List.lt_irrefl _ h

/-- The enumeration walks the schedules of the words. -/
theorem enumerate_walked : Walked cap clock ((words actors maxPreemptions).map (play actors)) {}
    (enumerate actors maxPreemptions cap clock) := by
  have hw := @visit_walked actors maxPreemptions cap clock
    (actors.map ActorChain.steps).flatten.length [] {} rfl (Nat.zero_le _)
  have hp : positions actors [] = actors.map fun _ => 0 :=
    List.ext_getElem (by simp [positions]) fun k _ _ => by simp [positions]
  rw [hp] at hw
  exact hw

/-- An exhausted enumeration has all of them. -/
theorem schedules_of_exhausted (h : (enumerate actors maxPreemptions cap clock).exhausted = true) :
    (enumerate actors maxPreemptions cap clock).schedules =
      (words actors maxPreemptions).map (play actors) := by
  have hw := @enumerate_walked actors maxPreemptions cap clock
  generalize enumerate actors maxPreemptions cap clock = r at h hw
  cases hw with
  | all => exact List.nil_append _
  | capped => cases h
  | stopped => cases h

/-- **The enumeration is exact.** The words that take every actor to its end and leave an
unfinished one at most `maxPreemptions` times, in lexicographic order, each once: unless the clock
stops it, `enumerate` returns the schedules of the first `cap` of them, which are distinct, and has
exhausted them if there are no more. The complete words are the order-preserving merges. -/
theorem enumerate_exact (hn : (actors.map fun a => a.actor.actor).Nodup)
    (hclock : ∀ k reason, clock k = some reason → reason = "cancelled" ∨ reason = "time_budget")
    (hstop : (enumerate actors maxPreemptions cap clock).stopReason ≠ "cancelled" ∧
      (enumerate actors maxPreemptions cap clock).stopReason ≠ "time_budget") :
    (∀ s, Merge (actors.map ActorChain.steps) s ↔
      ∃ u, Complete (chainLength actors) u ∧ play actors u = s) ∧
    ∃ words : List (List Nat),
      words.Pairwise (· < ·) ∧
      (∀ u, u ∈ words ↔ Complete (chainLength actors) u ∧
        switches (chainLength actors) u ≤ maxPreemptions) ∧
      (words.map (play actors)).Nodup ∧
      (enumerate actors maxPreemptions cap clock).schedules =
        (words.map (play actors)).take cap ∧
      ((enumerate actors maxPreemptions cap clock).exhausted = true ↔ words.length ≤ cap) := by
  have hw := @enumerate_walked actors maxPreemptions cap clock
  generalize enumerate actors maxPreemptions cap clock = r at hw hstop
  refine ⟨fun s => merge_iff, _, sorted_words, fun u => mem_words, nodup_play_words hn, ?_, ?_⟩
  · cases hw with
    | all h => rw [List.nil_append, List.take_of_length_le (by simpa using h)]
    | capped h => rfl
    | stopped h =>
      rcases hclock _ _ h with rfl | rfl
      · exact absurd rfl hstop.1
      · exact absurd rfl hstop.2
  · cases hw with
    | all h => exact ⟨fun _ => by simpa using h, fun _ => rfl⟩
    | capped h =>
      refine ⟨nofun, fun hle => ?_⟩
      simp only [List.length_map, List.length_nil, Nat.zero_add] at h
      omega
    | stopped h =>
      rcases hclock _ _ h with rfl | rfl
      · exact absurd rfl hstop.1
      · exact absurd rfl hstop.2

/-- Two of the three merges of the sample do without a preemption. -/
theorem enumerate_exact_sample : ∃ words : List (List Nat), words.Pairwise (· < ·) ∧
    1 < words.length ∧
    [[⟨"a", "c"⟩, ⟨"a", "$done"⟩, ⟨"b", "$done"⟩]] =
      (words.map (play (sortActors sampleSpace.actors))).take 1 := by
  have he : (enumerate (sortActors sampleSpace.actors) 0 1 fun _ => none).exhausted = false ∧
      (enumerate (sortActors sampleSpace.actors) 0 1 fun _ => none).stopReason =
        "enumeration_limit" ∧
      (enumerate (sortActors sampleSpace.actors) 0 1 fun _ => none).schedules =
        [[⟨"a", "c"⟩, ⟨"a", "$done"⟩, ⟨"b", "$done"⟩]] := by decide +kernel
  obtain ⟨hx, hr, hs⟩ := he
  obtain ⟨-, words, hsorted, -, -, hsched, hex⟩ :=
    @enumerate_exact (sortActors sampleSpace.actors) 0 1 (fun _ => none) (by decide)
      (fun _ _ h => by cases h) (by rw [hr]; decide)
  refine ⟨words, hsorted, ?_, hs.symm.trans hsched⟩
  rw [hx] at hex
  by_contra hle
  exact absurd (hex.mpr (by omega)) (by decide)

end MirrorCpp.Schedule
