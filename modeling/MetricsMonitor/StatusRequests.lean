/-
**Status requests of several clients.**

A client asks for the status by sending `SIGUSR1` to the monitor; `handle_sigusr1` answers the
process named in `si_pid`.  `SIGUSR1` is a standard signal: the monitor has room for one pending
instance, which carries its first sender, and a request sent while there is one is merged into it.
The machine of this module interleaves any number of clients with any number of threads of the
monitor that can take the signal.

* `Monitor.statusRequests` — the machine;
* `Monitor.balance_step` — a request that finds nothing pending is owed one reply until it gets it;
* `Monitor.replies_eq_accepted` — **in a quiescent state every client has got one reply for each
  request it sent while no instance was pending**;
* `Monitor.request_merged` — a run in which a request is never answered.
-/

import MetricsMonitor.Machine
import MetricsMonitor.Metrics
import Mathlib.Algebra.BigOperators.Group.Finset.Basic
import Mathlib.Data.Fintype.Basic

set_option relaxedAutoImplicit false
set_option autoImplicit false

namespace Monitor

/-- Where a thread is in `handle_sigusr1`. -/
inductive Handler (C : Type*)
  | idle
  /-- Entered for this caller, before `sigqueue`. -/
  | entered (caller : C)
  /-- After `sigqueue`. -/
  | replied
  deriving DecidableEq

/-- The monitor and its clients, as far as `SIGUSR1` is concerned. -/
structure Requests (C T : Type*) where
  /-- The pending instance, by its sender. -/
  pending : Option C
  handler : T → Handler C
  sent : C → ℕ
  replied : C → ℕ

/-- The steps: a client sends a request, a thread takes the pending one, answers it, returns. -/
inductive RequestLabel (C T : Type*)
  | send (c : C)
  | deliver (t : T)
  | reply (t : T)
  | ret (t : T)
  deriving DecidableEq

section

variable {C T : Type*} [DecidableEq C] [DecidableEq T]

/-- The state once the handler has been registered. -/
def Requests.start : Requests C T := ⟨none, fun _ => .idle, fun _ => 0, fun _ => 0⟩

/-- Nothing is pending and no handler runs. -/
def Requests.Quiescent (s : Requests C T) : Prop := s.pending = none ∧ ∀ t, s.handler t = .idle

/-- Moving a thread in its handler. -/
def Requests.goto (s : Requests C T) (t : T) (pc : Handler C) : Requests C T :=
  { s with handler := Function.update s.handler t pc }

/-- The steps of the clients and of the handler. -/
def Requests.step (s : Requests C T) : RequestLabel C T → Option (Requests C T)
  | .send c =>
      some { s with
        pending := s.pending.or (some c)
        sent := Function.update s.sent c (s.sent c + 1) }
  | .deliver t =>
      match s.pending, s.handler t with
      | some c, .idle => some { s.goto t (.entered c) with pending := none }
      | _, _ => none
  | .reply t =>
      match s.handler t with
      | .entered c =>
          some { s.goto t .replied with replied := Function.update s.replied c (s.replied c + 1) }
      | _ => none
  | .ret t => if s.handler t = .replied then some (s.goto t .idle) else none

variable (C T)

/-- The clients and the threads of the monitor. -/
def statusRequests : Machine (Requests C T) (RequestLabel C T) where
  init s := s = .start
  step := Requests.step

variable {C T}

/-! ### Requests along a run -/

/-- A request of `c` that becomes the pending instance. -/
def accepted (c : C) (s : Requests C T) (l : RequestLabel C T) : Bool :=
  l = .send c && s.pending = none

/-- A request of `c`, whether it is accepted or not. -/
def requested (c : C) (_ : Requests C T) (l : RequestLabel C T) : Bool := l = .send c

theorem requested_of_accepted (c : C) (s : Requests C T) (l : RequestLabel C T)
    (h : accepted c s l = true) : requested c s l = true := by
  rw [accepted, Bool.and_eq_true] at h
  exact h.1

/-- **What a step can do**: every label with its guard and the state after it. -/
theorem requests_step_cases {s s' : Requests C T} {l : RequestLabel C T}
    (h : (statusRequests C T).step s l = some s') :
    (∃ d, l = .send d ∧ s' = { s with
      pending := s.pending.or (some d), sent := Function.update s.sent d (s.sent d + 1) }) ∨
    (∃ t d, l = .deliver t ∧ s.pending = some d ∧ s.handler t = .idle ∧
      s' = { s.goto t (.entered d) with pending := none }) ∨
    (∃ t d, l = .reply t ∧ s.handler t = .entered d ∧ s' = { s.goto t .replied with
      replied := Function.update s.replied d (s.replied d + 1) }) ∨
    ∃ t, l = .ret t ∧ s.handler t = .replied ∧ s' = s.goto t .idle := by
  cases l with
  | send d => exact Or.inl ⟨d, rfl, (Option.some_inj.1 h).symm⟩
  | deliver t =>
      simp only [statusRequests, Requests.step] at h
      split at h
      · rename_i d hpending hidle
        exact Or.inr (Or.inl ⟨t, d, rfl, hpending, hidle, (Option.some_inj.1 h).symm⟩)
      · simp at h
  | reply t =>
      simp only [statusRequests, Requests.step] at h
      split at h
      · rename_i d hentered
        exact Or.inr (Or.inr (Or.inl ⟨t, d, rfl, hentered, (Option.some_inj.1 h).symm⟩))
      · simp at h
  | ret t =>
      simp only [statusRequests, Requests.step] at h
      split at h
      · rename_i hreplied
        exact Or.inr (Or.inr (Or.inr ⟨t, rfl, hreplied, (Option.some_inj.1 h).symm⟩))
      · simp at h

/-- The requests of a client are counted as it sends them. -/
theorem sent_step (c : C) (s : Requests C T) (l : RequestLabel C T) (s' : Requests C T)
    (h : (statusRequests C T).step s l = some s') :
    s'.sent c = s.sent c + (requested c s l).toNat := by
  obtain ⟨d, rfl, rfl⟩ | ⟨t, d, rfl, -, -, rfl⟩ | ⟨t, d, rfl, -, rfl⟩ | ⟨t, rfl, -, rfl⟩ :=
    requests_step_cases h
  · by_cases hd : d = c
    · subst hd
      simp [requested]
    · simp [requested, hd, Function.update_of_ne (Ne.symm hd)]
  · simp [requested, Requests.goto]
  · simp [requested, Requests.goto]
  · simp [requested, Requests.goto]

/-! ### The replies a client is owed -/

variable [Fintype T]

/-- The number of handlers that are about to answer a client. -/
def Requests.answering (s : Requests C T) (c : C) : ℕ :=
  ∑ t, if s.handler t = .entered c then 1 else 0

/-- The requests of a client that will be answered. -/
def Requests.outstanding (s : Requests C T) (c : C) : ℕ :=
  (if s.pending = some c then 1 else 0) + s.answering c

theorem answering_goto (s : Requests C T) (t : T) (pc : Handler C) (c : C) :
    (s.goto t pc).answering c + (if s.handler t = .entered c then 1 else 0) =
      s.answering c + if pc = .entered c then 1 else 0 := by
  have hrest : ∑ u ∈ Finset.univ.erase t, (if (s.goto t pc).handler u = .entered c then 1 else 0) =
      ∑ u ∈ Finset.univ.erase t, if s.handler u = .entered c then 1 else 0 := by
    refine Finset.sum_congr rfl fun u hu => ?_
    have hne : (s.goto t pc).handler u = s.handler u :=
      Function.update_of_ne (Finset.ne_of_mem_erase hu) _ _
    rw [hne]
  have hself : (s.goto t pc).handler t = pc := Function.update_self ..
  rw [Requests.answering, Requests.answering, ← Finset.add_sum_erase _ _ (Finset.mem_univ t),
    ← Finset.add_sum_erase Finset.univ (fun u => if s.handler u = .entered c then 1 else 0)
      (Finset.mem_univ t), hrest, hself]
  omega

/-- **The balance.**  Replied and outstanding requests of a client grow together by one, exactly
when a request of this client finds nothing pending. -/
theorem balance_step (c : C) (s : Requests C T) (l : RequestLabel C T) (s' : Requests C T)
    (h : (statusRequests C T).step s l = some s') :
    s'.replied c + s'.outstanding c = s.replied c + s.outstanding c + (accepted c s l).toNat := by
  obtain ⟨d, rfl, rfl⟩ | ⟨t, d, rfl, hp, hh, rfl⟩ | ⟨t, d, rfl, hh, rfl⟩ | ⟨t, rfl, hh, rfl⟩ :=
    requests_step_cases h
  · have hanswering : Requests.answering { s with
        pending := s.pending.or (some d), sent := Function.update s.sent d (s.sent d + 1) } c =
        s.answering c := rfl
    simp only [Requests.outstanding, hanswering, accepted]
    -- a request is accepted exactly when nothing is pending
    cases hp : s.pending with
    | none => by_cases hd : d = c <;> simp [hd]; omega
    | some e => simp
  · -- the pending request moves to the handler
    have hgoto := answering_goto s t (.entered d) c
    change s.replied c + (0 + (s.goto t (.entered d)).answering c) = _
    simp only [Requests.outstanding, accepted, hp, hh, reduceCtorEq, if_false,
      Handler.entered.injEq, Option.some_inj, decide_false, Bool.false_and,
      Bool.toNat_false] at hgoto ⊢
    omega
  · -- the handler's request becomes a reply
    have hgoto := answering_goto s t .replied c
    change Function.update s.replied d _ c + ((if s.pending = some c then 1 else 0) +
      (s.goto t .replied).answering c) = _
    simp only [Requests.outstanding, accepted, hh, reduceCtorEq, if_false,
      Handler.entered.injEq, decide_false, Bool.false_and, Bool.toNat_false] at hgoto ⊢
    by_cases hd : d = c
    · subst hd
      rw [Function.update_self]
      simp only [if_true] at hgoto
      omega
    · rw [Function.update_of_ne (Ne.symm hd)]
      simp only [hd, if_false] at hgoto
      omega
  · have hgoto := answering_goto s t .idle c
    change s.replied c + ((if s.pending = some c then 1 else 0) +
      (s.goto t .idle).answering c) = _
    simp only [Requests.outstanding, accepted, hh, reduceCtorEq, if_false, decide_false,
      Bool.false_and, Bool.toNat_false] at hgoto ⊢
    omega

omit [DecidableEq T] in
theorem outstanding_of_quiescent {s : Requests C T} (h : s.Quiescent) (c : C) :
    s.outstanding c = 0 := by
  have hidle : s.answering c = 0 := Finset.sum_eq_zero fun t _ => by simp [h.2 t]
  rw [Requests.outstanding, hidle, h.1]
  simp

/-- **Which requests are answered.**  In every run a client never gets more replies than it sent
requests.  In a quiescent state it has got one reply for each request it sent while no instance of
the signal was pending, hence one for every request exactly when none of its requests found one
pending. -/
theorem replies_eq_accepted (ls : List (RequestLabel C T)) (s : Requests C T)
    (hrun : (statusRequests C T).run .start ls = some s) (c : C) :
    s.replied c ≤ s.sent c ∧
      (s.Quiescent →
        s.replied c = (statusRequests C T).tally (accepted c) .start ls ∧
        (s.replied c = s.sent c ↔
          (statusRequests C T).Along (fun s l => l = .send c → s.pending = none) .start ls)) := by
  have hreplied := Machine.balance_tally (balance_step c) hrun
  have hsent : s.sent c = 0 + (statusRequests C T).tally (requested c) .start ls :=
    Machine.balance_tally (sent_step c) hrun
  have hstart : (Requests.start : Requests C T).replied c +
      (Requests.start : Requests C T).outstanding c = 0 :=
    Nat.add_eq_zero_iff.2 ⟨rfl, outstanding_of_quiescent ⟨rfl, fun _ => rfl⟩ c⟩
  have hle := Machine.tally_le (m := statusRequests C T) (requested_of_accepted c) .start ls
  refine ⟨by omega, fun hq => ?_⟩
  have houtstanding := outstanding_of_quiescent hq c
  have heq : s.replied c = (statusRequests C T).tally (accepted c) .start ls := by omega
  refine ⟨heq, ?_⟩
  rw [heq, hsent, Nat.zero_add, Machine.tally_eq_iff (requested_of_accepted c) hrun]
  constructor
  · exact fun h => h.mono fun s l hp hl => by simpa [accepted, requested, hl] using hp
  · exact fun h => h.mono fun s l hp hl => by
      have hl' : l = .send c := by simpa [requested] using hl
      simpa [accepted, hl'] using hp hl'

end

/-- Two requests, each answered before the next one is sent. -/
def twoRounds : List (RequestLabel ℕ (Fin 2)) :=
  [.send 100, .deliver 0, .reply 0, .ret 0, .send 200, .deliver 1, .reply 1, .ret 1]

/-- In two separate rounds both clients are answered. -/
theorem replies_twoRounds :
    ∃ s, (statusRequests ℕ (Fin 2)).run .start twoRounds = some s ∧ s.replied 200 = s.sent 200 := by
  refine ⟨_, rfl, ?_⟩
  refine ((replies_eq_accepted twoRounds _ rfl 200).2 ⟨rfl, ?_⟩).2.2 ?_
  · decide
  · decide +kernel

/-- **A merged request.**  Two clients ask before the signal is delivered; the second one is never
answered. -/
theorem request_merged :
    ¬ ∀ (ls : List (RequestLabel ℕ (Fin 2))) (s : Requests ℕ (Fin 2)),
      (statusRequests ℕ (Fin 2)).run .start ls = some s → s.Quiescent →
      ∀ c, s.replied c = s.sent c := by
  intro h
  have heq := h [.send 100, .send 200, .deliver 0, .reply 0, .ret 0] _ rfl ⟨rfl, by decide⟩ 200
  revert heq
  decide

end Monitor
