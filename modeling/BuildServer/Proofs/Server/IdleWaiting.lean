import Mathlib.Data.List.Induction
import Mathlib.Logic.Function.Iterate
import BuildServer.Server.Waiting

namespace BuildServer.Waiting

variable {w w' : Waiting} {m : Move} {i : Nat}

def Move.change (w : Waiting) : Move → Int
  | .enter => 1
  | .request => if w.state.inFlight then 0 else 1
  | .leave => -1
  | .endRefresh => if w.state.inFlight then -1 else 0
  | _ => 0

theorem depth_leaveBy {f : BuildState → BuildState} (hf : (f w.state).depth = w.state.depth - 1) :
    (0 < (w.leaveBy f).state.depth ∨ 0 < (w.leaveBy f).due) ∧
      ((w.leaveBy f).state.depth : Int) = max 0 ((w.state.depth : Int) + -1) := by
  simp only [leaveBy, BuildState.isIdle, beq_iff_eq, hf]
  split <;> omega

theorem move_cases (h : w.move m = some w') :
    (∃ i x y, m = .step i ∧ w.waiters[i]? = some x ∧ x.next w.state.isIdle w.wakes = some y ∧
      w' = { w with waiters := w.waiters.set i y }) ∨
    (m = .arrive ∧ w' = { w with waiters := w.waiters ++ [.arriving] }) ∨
    (∀ i, m ≠ .step i) ∧ w'.waiters = w.waiters ∧
      (w'.wakes = w.wakes ∧
        (0 < w'.state.depth ∨ 0 < w'.due ∨ w'.state.depth = w.state.depth ∧ w'.due = w.due) ∨
          w'.wakes = w.wakes + 1) := by
  cases m with
  | enter =>
    cases h
    exact .inr (.inr ⟨nofun, rfl, .inl ⟨rfl, .inl (Nat.succ_pos _)⟩⟩)
  | request =>
    simp only [move, BuildState.acceptRefresh?] at h
    split at h
    · cases h
    · cases h
      exact .inr (.inr ⟨nofun, rfl, .inl ⟨rfl, .inl (Nat.succ_pos _)⟩⟩)
  | leave =>
    cases h
    exact .inr (.inr ⟨nofun, rfl, .inl ⟨rfl, (depth_leaveBy rfl).1.imp id .inl⟩⟩)
  | land =>
    simp only [move] at h
    split at h
    · cases h
      exact .inr (.inr ⟨nofun, rfl, .inl ⟨rfl, .inr (.inr ⟨rfl, rfl⟩)⟩⟩)
    · cases h
  | endRefresh =>
    simp only [move] at h
    split at h
    · cases h
      exact .inr (.inr ⟨nofun, rfl, .inl ⟨rfl, (depth_leaveBy rfl).1.imp id .inl⟩⟩)
    · cases h
  | wake =>
    simp only [move] at h
    split at h
    · cases h
    · cases h
      exact .inr (.inr ⟨nofun, rfl, .inr rfl⟩)
  | arrive =>
    cases h
    exact .inr (.inl ⟨rfl, rfl⟩)
  | step i =>
    obtain ⟨y, hy, rfl⟩ := Option.map_eq_some_iff.mp h
    obtain ⟨x, hx, hnext⟩ := Option.bind_eq_some_iff.mp hy
    exact .inl ⟨i, x, y, rfl, hx, hnext, rfl⟩

theorem play_concat (ms : List Move) (m : Move) (w : Waiting) :
    w.play (ms ++ [m]) = ((w.play ms).move m).getD (w.play ms) := by
  simp [play]

theorem play_invariant {P : Waiting → Prop} (start : P initial)
    (step : ∀ w m w', P w → w.move m = some w' → P w') (ms : List Move) : P (initial.play ms) := by
  induction ms using List.reverseRecOn with
  | nil => exact start
  | append_singleton ms m ih =>
    rw [play_concat]
    cases h : (initial.play ms).move m with
    | none => exact ih
    | some w' => exact step _ m w' ih h

def Covers (w : Waiting) : Waiter → Prop
  | .registered n => n ≤ w.wakes
  | .parked n => n ≤ w.wakes ∧ (n < w.wakes ∨ 0 < w.state.depth ∨ 0 < w.due)
  | _ => True

theorem covers_next {x y : Waiter} (hx : w.Covers x) (h : x.next w.state.isIdle w.wakes = some y) :
    w.Covers y := by
  cases x with
  | arriving =>
    cases h
    exact Nat.le_refl _
  | registered n =>
    rw [Waiter.next, BuildState.isIdle] at h
    split at h
    · cases h
      trivial
    · next hbusy =>
      cases h
      exact ⟨hx, .inr (.inl (Nat.pos_of_ne_zero (by simpa using hbusy)))⟩
  | parked n =>
    rw [Waiter.next] at h
    split at h
    · cases h
      trivial
    · cases h
  | returned => cases h

theorem Covers.move {x : Waiter} (hx : w.Covers x)
    (h : w'.wakes = w.wakes ∧
      (0 < w'.state.depth ∨ 0 < w'.due ∨ w'.state.depth = w.state.depth ∧ w'.due = w.due) ∨
        w'.wakes = w.wakes + 1) :
    w'.Covers x := by
  cases x with
  | registered n =>
    simp only [Covers] at hx ⊢
    omega
  | parked n =>
    simp only [Covers] at hx ⊢
    omega
  | _ => trivial

theorem covers_move (hw : ∀ x ∈ w.waiters, w.Covers x) (h : w.move m = some w') :
    ∀ x ∈ w'.waiters, w'.Covers x := by
  obtain ⟨i, x, y, -, hx, hnext, rfl⟩ | ⟨-, rfl⟩ | ⟨-, hsame, hcounts⟩ := move_cases h
  · intro z hz
    rcases List.mem_or_eq_of_mem_set hz with hz | rfl
    · exact hw z hz
    · exact covers_next (hw x (List.mem_of_getElem? hx)) hnext
  · intro z hz
    rcases List.mem_append.mp hz with hz | hz
    · exact hw z hz
    · rw [List.mem_singleton.mp hz]
      trivial
  · intro z hz
    exact (hw z (hsame ▸ hz)).move hcounts

theorem covers_play (ms : List Move) : ∀ x ∈ (initial.play ms).waiters, (initial.play ms).Covers x :=
  play_invariant (P := fun w => ∀ x ∈ w.waiters, w.Covers x) nofun (fun _ _ _ => covers_move) ms

theorem depth_move (h : w.move m = some w') :
    (w'.state.depth : Int) = max 0 ((w.state.depth : Int) + m.change w) := by
  cases m with
  | enter =>
    cases h
    simp only [BuildState.enterUpdate, Move.change]
    omega
  | request =>
    simp only [move, BuildState.acceptRefresh?] at h
    split at h
    · cases h
    · next hfree =>
      cases h
      simp only [BuildState.enterUpdate, Move.change, if_neg hfree]
      omega
  | leave =>
    cases h
    exact (depth_leaveBy rfl).2
  | land =>
    simp only [move] at h
    split at h
    · cases h
      simp [Move.change, BuildState.land]
    · cases h
  | endRefresh =>
    simp only [move] at h
    split at h
    · next hflight =>
      cases h
      rw [Move.change, if_pos hflight]
      exact (depth_leaveBy rfl).2
    · cases h
  | wake =>
    simp only [move] at h
    split at h
    · cases h
    · cases h
      simp [Move.change]
  | arrive =>
    cases h
    simp [Move.change]
  | step i =>
    obtain ⟨y, -, rfl⟩ := Option.map_eq_some_iff.mp h
    simp [Move.change]

theorem returned_of_move (h : w.move m = some w') (hi : w'.waiters[i]? = some .returned) :
    w.waiters[i]? = some .returned ∨
      m = .step i ∧ w.state.depth = 0 ∧ ∃ n, w.waiters[i]? = some (.registered n) := by
  obtain ⟨j, x, y, rfl, hx, hnext, rfl⟩ | ⟨-, rfl⟩ | ⟨-, hsame, -⟩ := move_cases h
  · by_cases hij : j = i
    · subst hij
      have hlt := (List.getElem?_eq_some_iff.mp hx).1
      rw [List.getElem?_set_self hlt] at hi
      obtain rfl := Option.some.inj hi
      cases x with
      | registered n =>
        refine .inr ⟨rfl, ?_, n, hx⟩
        rw [Waiter.next, BuildState.isIdle] at hnext
        split at hnext
        · next hidle => simpa using hidle
        · cases hnext
      | parked n =>
        rw [Waiter.next] at hnext
        split at hnext <;> cases hnext
      | arriving => cases hnext
      | returned => cases hnext
    · rw [List.getElem?_set_ne hij] at hi
      exact .inl hi
  · left
    rw [List.getElem?_append] at hi
    split at hi
    · exact hi
    · rw [List.getElem?_singleton] at hi
      split at hi <;> cases hi
  · exact .inl (hsame ▸ hi)

theorem returned_of_play {ms : List Move} (hi : (initial.play ms).waiters[i]? = some .returned) :
    ∃ before after n, ms = before ++ .step i :: after ∧ (initial.play before).state.depth = 0 ∧
      (initial.play before).waiters[i]? = some (.registered n) := by
  induction ms using List.reverseRecOn with
  | nil => cases hi
  | append_singleton ms m ih =>
    have extend (h : (initial.play ms).waiters[i]? = some .returned) :
        ∃ before after n, ms ++ [m] = before ++ .step i :: after ∧ (initial.play before).state.depth = 0 ∧
          (initial.play before).waiters[i]? = some (.registered n) := by
      obtain ⟨before, after, n, rfl, hlook⟩ := ih h
      exact ⟨before, after ++ [m], n, by simp, hlook⟩
    rw [play_concat] at hi
    cases h : (initial.play ms).move m with
    | none =>
      rw [h] at hi
      exact extend hi
    | some w' =>
      rw [h] at hi
      rcases returned_of_move h hi with hbefore | ⟨rfl, hidle, n, hn⟩
      · exact extend hbefore
      · exact ⟨ms, [], n, rfl, hidle, hn⟩

def alone (w : Waiting) (x : Waiter) : Waiter := (x.next w.state.isIdle w.wakes).getD x

theorem play_alone {x : Waiter} (hx : w.waiters[i]? = some x) (k : Nat) :
    w.play (List.replicate k (.step i)) = { w with waiters := w.waiters.set i (w.alone^[k] x) } := by
  induction k generalizing w x with
  | zero =>
    obtain ⟨hlt, hget⟩ := List.getElem?_eq_some_iff.mp hx
    rw [Function.iterate_zero_apply, ← hget, List.set_getElem_self]
    rfl
  | succ k ih =>
    have hlt := (List.getElem?_eq_some_iff.mp hx).1
    have hmove : (w.move (.step i)).getD w = { w with waiters := w.waiters.set i (w.alone x) } := by
      simp only [move, hx, Option.bind_some, alone]
      cases hnext : x.next w.state.isIdle w.wakes with
      | some y => rfl
      | none =>
        rw [Option.getD_none, ← (List.getElem?_eq_some_iff.mp hx).2, List.set_getElem_self]
        rfl
    have hset : ({ w with waiters := w.waiters.set i (w.alone x) } : Waiting).waiters[i]? =
        some (w.alone x) := List.getElem?_set_self hlt
    rw [List.replicate_succ, play, List.foldl_cons, hmove, ← play, ih hset, Function.iterate_succ_apply,
      List.set_set]
    rfl

theorem alone_returns {x : Waiter} (hidle : w.state.depth = 0) (hdue : w.due = 0) (hx : w.Covers x) :
    w.alone^[3] x = .returned := by
  have hbusy : w.state.isIdle = true := by simp [BuildState.isIdle, hidle]
  cases x with
  | parked n =>
    have hwoken : n < w.wakes := by
      simp only [Covers] at hx
      omega
    simp [alone, Waiter.next, hbusy, hwoken]
  | _ => simp [alone, Waiter.next, hbusy]

/-- After any moves: a waiter that has returned did so by a look of its own, behind its registration, that
found no update in progress. Every move counts the updates up or down, and never below zero. With no update
in progress and no wake-up due, a parked waiter has been sent a wake-up since it registered, and every waiter
returns within three moves of its own. -/
theorem idle_waiting_exact (ms : List Move) :
    (∀ i, (initial.play ms).waiters[i]? = some .returned →
      ∃ before after n, ms = before ++ .step i :: after ∧ (initial.play before).state.depth = 0 ∧
        (initial.play before).waiters[i]? = some (.registered n)) ∧
    (∀ m w, (initial.play ms).move m = some w →
      (w.state.depth : Int) = max 0 (((initial.play ms).state.depth : Int) + m.change (initial.play ms))) ∧
    ((initial.play ms).state.depth = 0 → (initial.play ms).due = 0 →
      (∀ n, .parked n ∈ (initial.play ms).waiters → n < (initial.play ms).wakes) ∧
      ∀ i < (initial.play ms).waiters.length,
        (initial.play (ms ++ List.replicate 3 (.step i))).waiters[i]? = some .returned) := by
  refine ⟨fun i => returned_of_play, fun m w => depth_move, fun hdepth hdue => ⟨fun n hn => ?_, fun i hi => ?_⟩⟩
  · have hcovers := covers_play ms _ hn
    simp only [Covers] at hcovers
    omega
  · have hplay : initial.play (ms ++ List.replicate 3 (.step i)) =
        (initial.play ms).play (List.replicate 3 (.step i)) := List.foldl_append
    rw [hplay, play_alone (List.getElem?_eq_getElem hi),
      alone_returns hdepth hdue (covers_play ms _ (List.getElem_mem hi))]
    exact List.getElem?_set_self hi

def crossing : List Move :=
  [.enter, .arrive, .step 0, .step 0, .leave, .enter, .wake, .leave, .wake]

theorem woken_in_crossing :
    (initial.play crossing).waiters = [.parked 0] ∧ 0 < (initial.play crossing).wakes ∧
      (initial.play (crossing ++ [.step 0, .step 0, .step 0])).waiters[0]? = some .returned := by
  obtain ⟨-, -, hidle⟩ := idle_waiting_exact crossing
  obtain ⟨hparked, hreturns⟩ := hidle (by decide) (by decide)
  exact ⟨by decide, hparked 0 (by decide), hreturns 0 (by decide)⟩

end BuildServer.Waiting
