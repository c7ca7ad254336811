import Mathlib.Algebra.Order.Monoid.Defs

/-!
# Paced probes

A launcher starts probes one at a time, with a rest after each.  It compares the
clock with the time the last probe stamped, then tests a flag that says whether a
probe is running.  A probe raises no flag itself: the launcher raises it before the
probe exists, and the probe clears it before it writes its stamp.  The comparison and
the test are two steps, and so are the clearing and the stamp, so the order in which
the launcher sees the two variables decides whether probes stay apart.
-/

namespace RinhaBackend.Foundation

inductive Launcher where
  | waiting
  | idle
  | due
  | launching
  | marked
  deriving DecidableEq

structure Pacer (Time : Type) where
  launcher : Launcher
  running : Bool
  last : Time
  clock : Time
  sending : Nat
  stamping : Nat
  sends : List Time
  launches : List (Time × List Time)

namespace Pacer

variable {Time : Type} [AddCommMonoid Time] [PartialOrder Time]

/--
The steps of the launcher and its probes.  The comparison is made only while no
probe is between its two closing writes, and no probe clears the flag while the
launcher is between the comparison and the test.  The process of both may end at any
time.
-/
inductive Step (interval : Time) (state : Pacer Time) : Pacer Time → Prop
  | tick {clock : Time} (hclock : state.clock ≤ clock) :
      Step interval state { state with clock }
  | start (hlauncher : state.launcher = .waiting) :
      Step interval state { state with launcher := .idle, last := state.clock }
  | compare (hlauncher : state.launcher = .idle) (hstamping : state.stamping = 0)
      (hrest : state.last + interval ≤ state.clock) :
      Step interval state { state with launcher := .due }
  | skip (hlauncher : state.launcher = .due) :
      Step interval state { state with launcher := .idle }
  | launch (hlauncher : state.launcher = .due) (hrunning : state.running = false) :
      Step interval state { state with launcher := .launching }
  | mark (hlauncher : state.launcher = .launching) :
      Step interval state { state with launcher := .marked, running := true }
  | spawn (hlauncher : state.launcher = .marked) :
      Step interval state
        { state with
          launcher := .idle
          sending := state.sending + 1
          launches := state.launches ++ [(state.clock, state.sends)] }
  | send (hsending : state.sending ≠ 0) :
      Step interval state { state with sends := state.sends ++ [state.clock] }
  | clear (hsending : state.sending ≠ 0) (hlauncher : state.launcher ≠ .due) :
      Step interval state
        { state with
          running := false
          sending := state.sending - 1
          stamping := state.stamping + 1 }
  | stamp (hstamping : state.stamping ≠ 0) :
      Step interval state
        { state with last := state.clock, stamping := state.stamping - 1 }
  | stop :
      Step interval state { state with launcher := .waiting, sending := 0, stamping := 0 }

/-- Every send so far is at least the interval old. -/
def Rested (interval : Time) (state : Pacer Time) : Prop :=
  ∀ send ∈ state.sends, send + interval ≤ state.clock

structure Paced (interval : Time) (state : Pacer Time) : Prop where
  alone : state.sending + state.stamping ≤ 1
  flagged : state.sending ≠ 0 → state.running = true
  started : state.launcher ≠ .waiting → state.last ≤ state.clock
  sent : ∀ send ∈ state.sends, send ≤ state.clock
  stamped : state.sending = 0 → state.stamping = 0 → state.launcher ≠ .waiting →
    ∀ send ∈ state.sends, send ≤ state.last
  due : state.launcher = .due → state.stamping = 0 ∧
    (state.running = false → state.Rested interval)
  launching : state.launcher = .launching →
    state.sending = 0 ∧ state.stamping = 0 ∧ state.Rested interval
  marked : state.launcher = .marked →
    state.running = true ∧ state.sending = 0 ∧ state.stamping = 0 ∧ state.Rested interval
  launches : ∀ launch ∈ state.launches, ∀ send ∈ launch.2, send + interval ≤ launch.1

theorem Rested.mono {interval clock : Time} {state : Pacer Time}
    (h : state.Rested interval) (hclock : state.clock ≤ clock) :
    Rested interval { state with clock } :=
  fun send hsend => (h send hsend).trans hclock

theorem Paced.rested [IsOrderedAddMonoid Time] {interval : Time} {state : Pacer Time}
    (h : state.Paced interval) (hlauncher : state.launcher ≠ .waiting)
    (hstamping : state.stamping = 0) (hrest : state.last + interval ≤ state.clock)
    (hrunning : state.running = false) : state.Rested interval := by
  have hsending : state.sending = 0 := by
    by_contra hsending
    simp [h.flagged hsending] at hrunning
  intro send hsend
  have hlast := h.stamped hsending hstamping hlauncher send hsend
  calc
    send + interval ≤ state.last + interval := by gcongr
    _ ≤ state.clock := hrest

theorem Step.paced [IsOrderedAddMonoid Time] {interval : Time} {state next : Pacer Time}
    (hstep : Step interval state next) (h : state.Paced interval) :
    next.Paced interval := by
  cases hstep with
  | tick hclock =>
      refine ⟨h.alone, h.flagged, fun hlauncher => (h.started hlauncher).trans hclock,
        fun send hsend => (h.sent send hsend).trans hclock, h.stamped, ?_, ?_, ?_,
        h.launches⟩
      · intro hlauncher
        exact ⟨(h.due hlauncher).1, fun hrunning =>
          ((h.due hlauncher).2 hrunning).mono hclock⟩
      · intro hlauncher
        obtain ⟨hsending, hstamping, hrested⟩ := h.launching hlauncher
        exact ⟨hsending, hstamping, hrested.mono hclock⟩
      · intro hlauncher
        obtain ⟨hrunning, hsending, hstamping, hrested⟩ := h.marked hlauncher
        exact ⟨hrunning, hsending, hstamping, hrested.mono hclock⟩
  | start hlauncher =>
      exact ⟨h.alone, h.flagged, fun _ => le_rfl, h.sent, fun _ _ _ => h.sent, nofun,
        nofun, nofun, h.launches⟩
  | compare hlauncher hstamping hrest =>
      have hwaiting : state.launcher ≠ .waiting := by simp [hlauncher]
      exact ⟨h.alone, h.flagged, fun _ => h.started hwaiting, h.sent,
        fun hsending hstamping _ => h.stamped hsending hstamping hwaiting,
        fun _ => ⟨hstamping, h.rested hwaiting hstamping hrest⟩, nofun, nofun, h.launches⟩
  | skip hlauncher =>
      have hwaiting : state.launcher ≠ .waiting := by simp [hlauncher]
      exact ⟨h.alone, h.flagged, fun _ => h.started hwaiting, h.sent,
        fun hsending hstamping _ => h.stamped hsending hstamping hwaiting, nofun, nofun,
        nofun, h.launches⟩
  | launch hlauncher hrunning =>
      have hwaiting : state.launcher ≠ .waiting := by simp [hlauncher]
      obtain ⟨hstamping, hrested⟩ := h.due hlauncher
      have hsending : state.sending = 0 := by
        by_contra hsending
        simp [h.flagged hsending] at hrunning
      exact ⟨h.alone, h.flagged, fun _ => h.started hwaiting, h.sent,
        fun hsending hstamping _ => h.stamped hsending hstamping hwaiting, nofun,
        fun _ => ⟨hsending, hstamping, hrested hrunning⟩, nofun, h.launches⟩
  | mark hlauncher =>
      have hwaiting : state.launcher ≠ .waiting := by simp [hlauncher]
      exact ⟨h.alone, fun _ => rfl, fun _ => h.started hwaiting, h.sent,
        fun hsending hstamping _ => h.stamped hsending hstamping hwaiting, nofun, nofun,
        fun _ => ⟨rfl, h.launching hlauncher⟩, h.launches⟩
  | spawn hlauncher =>
      have hwaiting : state.launcher ≠ .waiting := by simp [hlauncher]
      obtain ⟨hrunning, hsending, hstamping, hrested⟩ := h.marked hlauncher
      refine ⟨?_, fun _ => hrunning, fun _ => h.started hwaiting, h.sent, nofun, nofun,
        nofun, nofun, ?_⟩
      · simp [hsending, hstamping]
      · intro launch hlaunch
        rcases List.mem_append.mp hlaunch with hold | hnew
        · exact h.launches launch hold
        · rw [List.mem_singleton.mp hnew]
          exact hrested
  | send hsending =>
      refine ⟨h.alone, h.flagged, h.started, ?_, fun hnone => absurd hnone hsending, ?_,
        fun hlauncher => absurd (h.launching hlauncher).1 hsending,
        fun hlauncher => absurd (h.marked hlauncher).2.1 hsending, h.launches⟩
      · intro send hsend
        rcases List.mem_append.mp hsend with hold | hnew
        · exact h.sent send hold
        · exact (List.mem_singleton.mp hnew).le
      · intro hlauncher
        refine ⟨(h.due hlauncher).1, fun hrunning => ?_⟩
        exact absurd (h.flagged hsending) (by simp [show state.running = false from hrunning])
  | clear hsending hdue =>
      have halone := h.alone
      refine ⟨?_, ?_, h.started, h.sent, nofun, fun hlauncher => absurd hlauncher hdue,
        fun hlauncher => absurd (h.launching hlauncher).1 hsending,
        fun hlauncher => absurd (h.marked hlauncher).2.1 hsending, h.launches⟩
      · simp only
        omega
      · simp only
        omega
  | stamp hstamping =>
      have halone := h.alone
      refine ⟨?_, h.flagged, fun _ => le_rfl, h.sent, fun _ _ _ => h.sent,
        fun hlauncher => absurd (h.due hlauncher).1 hstamping,
        fun hlauncher => absurd (h.launching hlauncher).2.1 hstamping,
        fun hlauncher => absurd (h.marked hlauncher).2.2.1 hstamping, h.launches⟩
      simp only
      omega
  | stop =>
      exact ⟨by simp, by simp, by simp, h.sent, by simp, by simp, by simp, by simp,
        h.launches⟩

end Pacer

end RinhaBackend.Foundation
