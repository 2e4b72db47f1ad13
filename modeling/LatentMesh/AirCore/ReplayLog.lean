import LatentMesh.AirCore.Replay

/-!
# Runs of the replay window

A window and the positions it has accepted since `new`. The window keeps the top position and the
64 positions next to it (`ReplayRun.Refines`), which is all that a log needs to decide about the
next sequence number. See `ReplayWindow.refines_unwrapped_log`.
-/

namespace LatentMesh.AirCore

namespace ReplayWindow

/-- The position of a sequence number next to the highest one of a log. The first one is at its own
value. -/
def logPosition (log : List Int) (sequence : UInt16) : Int :=
  match log.max? with
  | none => sequence.toNat
  | some top => unwrap top sequence

/-- A log takes a position that is new and less than 64 behind the highest one. -/
def LogAdmits (log : List Int) (position : Int) : Prop :=
  position ∉ log ∧ ∀ top, log.max? = some top → top - 64 < position

end ReplayWindow

/-- A window in use, and the positions that `commit` has accepted, latest first. -/
structure ReplayRun where
  window : ReplayWindow
  log : List Int

namespace ReplayRun

open ReplayWindow

/-- One call of `commit`. -/
def commit (run : ReplayRun) (sequence : UInt16) : ReplayRun :=
  match run.window.commit sequence with
  | (window, .ok ()) => ⟨window, logPosition run.log sequence :: run.log⟩
  | (window, .error _) => ⟨window, run.log⟩

/-- Calls of `commit` on a fresh window. -/
def commits (sequences : List UInt16) : ReplayRun :=
  sequences.foldl commit ⟨ReplayWindow.new, []⟩

/-- The window of a run keeps the positions of its log. -/
def Refines (run : ReplayRun) : Prop :=
  (run.log = [] ∧ run.window = ReplayWindow.new) ∨
    ∃ top, run.log.max? = some top ∧ Tracks run.window (· ∈ run.log) top

/-! ## One call -/

variable {run : ReplayRun} {top : Int} {sequence : UInt16}

/-- A sequence number is read against the top of the log. -/
theorem log_position_eq (htop : run.log.max? = some top) :
    logPosition run.log sequence = unwrap top sequence := by
  rw [logPosition, htop]

/-- The log admits what is new and within 64 of its top. -/
theorem log_admits_iff (htop : run.log.max? = some top) (position : Int) :
    LogAdmits run.log position ↔ position ∉ run.log ∧ top - 64 < position := by
  rw [LogAdmits, htop]
  refine and_congr_right fun _ => ⟨fun h => h top rfl, fun h other hother => ?_⟩
  cases hother
  exact h

/-- The maximum of a log with a new position. -/
theorem max_cons_eq (htop : run.log.max? = some top) (position : Int) :
    (position :: run.log).max? = some (max top position) := by
  rw [List.max?_cons, htop, Int.max_comm]
  rfl

/-- A window accepts the positions that its log admits. -/
theorem Refines.accept_iff (h : run.Refines) (sequence : UInt16) :
    run.window.classify sequence = .accept ↔
      LogAdmits run.log (logPosition run.log sequence) := by
  classical
  rcases h with ⟨hlog, hwindow⟩ | ⟨top, htop, htracks⟩
  · rw [hlog, hwindow]
    refine iff_of_true rfl ⟨List.not_mem_nil, fun top htop => ?_⟩
    cases htop
  · rw [log_position_eq htop, log_admits_iff htop, classify_eq htracks, decision]
    by_cases hahead : top < unwrap top sequence
    · have hnew : unwrap top sequence ∉ run.log := fun hmem =>
        Int.not_lt.mpr (htracks.le_top _ hmem) hahead
      rw [if_pos hahead]
      exact iff_of_true rfl ⟨hnew, by omega⟩
    · rw [if_neg hahead]
      by_cases hold : unwrap top sequence ≤ top - 64
      · rw [if_pos hold]
        refine iff_of_false (by decide) fun hadmits => ?_
        omega
      · rw [if_neg hold]
        by_cases hmem : unwrap top sequence ∈ run.log
        · rw [if_pos hmem]
          exact iff_of_false (by decide) fun hadmits => hadmits.1 hmem
        · rw [if_neg hmem]
          exact iff_of_true rfl ⟨hmem, by omega⟩

/-- What a call does to the log, and that the window keeps up with it. -/
theorem Refines.commit_cases (h : run.Refines) (sequence : UInt16) :
    ((∃ window, run.window.commit sequence = (window, .ok ()) ∧
        run.commit sequence = ⟨window, logPosition run.log sequence :: run.log⟩) ∧
      LogAdmits run.log (logPosition run.log sequence) ∧ (run.commit sequence).Refines) ∨
    (∃ error, run.window.commit sequence = (run.window, .error error)) ∧
      ¬ LogAdmits run.log (logPosition run.log sequence) ∧ run.commit sequence = run := by
  cases hcommit : run.window.commit sequence with
  | mk window result =>
      cases result with
      | ok value =>
          have haccept : run.window.classify sequence = .accept := accept_of_commit hcommit
          have hrun : run.commit sequence = ⟨window, logPosition run.log sequence :: run.log⟩ := by
            rw [ReplayRun.commit, hcommit]
          refine Or.inl ⟨⟨window, rfl, hrun⟩, (h.accept_iff sequence).mp haccept, ?_⟩
          rw [hrun]
          rcases h with ⟨hlog, hwindow⟩ | ⟨top, htop, htracks⟩
          · have hnew : run.window.initialized = false := by rw [hwindow]; rfl
            have hposition : (sequence.toNat : Int) = (sequence.toNat : Int) % 65536 := by
              have hlt := sequence.toNat_lt
              omega
            have hfirst := commit_first hnew hposition hcommit
            refine Or.inr ⟨sequence.toNat, ?_, hfirst.congr fun other => ?_⟩
            · simp [hlog, logPosition]
            · simp [hlog, logPosition]
          · obtain ⟨_, hnext⟩ := htracks.commit hcommit
            rw [log_position_eq htop]
            exact Or.inr ⟨_, max_cons_eq htop _, hnext.congr fun other => List.mem_cons.symm⟩
      | error error =>
          obtain rfl := commit_error hcommit
          have hrefuse : run.window.classify sequence ≠ .accept := fun haccept => by
            obtain ⟨_, hok⟩ := commit_of_accept haccept
            rw [hcommit] at hok
            cases hok
          refine Or.inr ⟨⟨error, rfl⟩, (h.accept_iff sequence).not.mp hrefuse, ?_⟩
          rw [ReplayRun.commit, hcommit]

/-- What holds of every run. -/
structure Sound (run : ReplayRun) : Prop where
  refines : run.Refines
  nodup : run.log.Nodup

/-- A commit keeps the window and the log in step. -/
theorem Sound.commit (h : run.Sound) (sequence : UInt16) : (run.commit sequence).Sound := by
  rcases h.refines.commit_cases sequence with
    ⟨⟨window, _, hrun⟩, hadmits, hrefines⟩ | ⟨_, _, hrun⟩
  · refine ⟨hrefines, ?_⟩
    rw [hrun]
    exact List.nodup_cons.mpr ⟨hadmits.1, h.nodup⟩
  · rwa [hrun]

/-- After any commits the window and the log are in step. -/
theorem sound_commits (sequences : List UInt16) : (commits sequences).Sound :=
  List.foldlRecOn sequences ReplayRun.commit ⟨Or.inl ⟨rfl, rfl⟩, List.nodup_nil⟩
    fun _ hrun sequence _ => hrun.commit sequence

/-- The first call is accepted, and a log only grows. -/
theorem log_commits_ne_nil {sequences : List UInt16} (h : sequences ≠ []) :
    (commits sequences).log ≠ [] := by
  cases sequences with
  | nil => exact absurd rfl h
  | cons first rest =>
      have hfirst : (ReplayRun.commit ⟨ReplayWindow.new, []⟩ first).log ≠ [] :=
        List.cons_ne_nil _ _
      refine List.foldlRecOn (motive := fun run => run.log ≠ []) rest ReplayRun.commit hfirst
        fun run hrun sequence _ => ?_
      rw [ReplayRun.commit]
      split
      · exact List.cons_ne_nil _ _
      · exact hrun

end ReplayRun

/-- The window refines an unwrapped log. After any calls of `commit` on a fresh window, `highest` is
the residue of the highest accepted position and the bitmap says which of the 64 positions next to
it were accepted; the next call accepts exactly the positions that the log admits; a refusal leaves
the window as it is; and no position is accepted twice. -/
theorem ReplayWindow.refines_unwrapped_log (sequences : List UInt16) :
    (sequences ≠ [] → ∃ top, (ReplayRun.commits sequences).log.max? = some top ∧
      ((ReplayRun.commits sequences).window.highest.toNat : Int) = top % 65536 ∧
      ∀ i < 64, (ReplayRun.commits sequences).window.bitmap.toNat.testBit i = true ↔
        top - i ∈ (ReplayRun.commits sequences).log) ∧
    (∀ sequence, ((ReplayRun.commits sequences).window.commit sequence).2 = .ok () ↔
      LogAdmits (ReplayRun.commits sequences).log
        (logPosition (ReplayRun.commits sequences).log sequence)) ∧
    (∀ sequence, ((ReplayRun.commits sequences).window.commit sequence).2 ≠ .ok () →
      ((ReplayRun.commits sequences).window.commit sequence).1 =
        (ReplayRun.commits sequences).window) ∧
    (ReplayRun.commits sequences).log.Nodup := by
  obtain ⟨hrefines, hnodup⟩ := ReplayRun.sound_commits sequences
  refine ⟨fun hsequences => ?_, fun sequence => ?_, fun sequence hrefused => ?_, hnodup⟩
  · rcases hrefines with ⟨hlog, _⟩ | ⟨top, htop, htracks⟩
    · exact absurd hlog (ReplayRun.log_commits_ne_nil hsequences)
    · exact ⟨top, htop, htracks.highest, htracks.bit⟩
  · rcases hrefines.commit_cases sequence with ⟨⟨_, hok, _⟩, hadmits, _⟩ | ⟨⟨_, herror⟩, hrefuse, _⟩
    · rw [hok]
      exact iff_of_true rfl hadmits
    · rw [herror]
      exact iff_of_false (by simp) hrefuse
  · rcases hrefines.commit_cases sequence with ⟨⟨_, hok, _⟩, _⟩ | ⟨⟨_, herror⟩, _⟩
    · rw [hok] at hrefused
      exact absurd rfl hrefused
    · rw [herror]

end LatentMesh.AirCore
