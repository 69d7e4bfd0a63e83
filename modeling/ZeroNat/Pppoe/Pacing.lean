import ZeroNat.Pppoe.Lease
import ZeroNat.Pppoe.Redial
import ZeroNat.Pppoe.Silence

/-!
# The pace of dialling

What is said of a session to those who use it, what is noted on a channel, and what is sent once a
session has gone down: over every run of the driver, whatever fails.  On a channel that began with
a dial, a session that did not last is dialled again only when a wait is over, and the waits
double.
-/

namespace ZeroNat.Pppoe

open Ppp

/-! ### A link that is down, or a discovery that gave up, is left by a dial only -/

namespace Core

variable {md5 : Digest} {c : Core}

theorem Halted.discovered {e : Discovery.Event} {a : Discovery.Action} {disc : Discovery}
    (h : c.Halted) (hmove : c.discovery.Move e a disc) (he : e ≠ .start) :
  Halted (Core.discovered { c with discovery := disc } a)
  := by
  obtain hdown | ⟨hdead, hsession⟩ := h
  · exact .inl (linkDown_discovered (c := { c with discovery := disc }) hdown a)
  · cases hmove with
    | idle => exact .inr ⟨hdead, hsession⟩
    | started => exact absurd rfl he
    | offered hstate => simp [hstate] at hdead
    | confirmed hstate => simp [hstate] at hdead
    | ended => exact .inr ⟨rfl, hsession⟩
    | waited hwait => simp [Discovery.Waiting, hdead] at hwait
    | gaveUp => exact .inr ⟨rfl, hsession⟩
    | resent hwait => simp [Discovery.Waiting, hdead] at hwait

theorem Halted.frame (h : c.Halted) (bytes : List UInt8) :
  (c.frame md5 bytes).Halted
  := by
  rw [Core.frame]
  split
  · exact h
  · split
    · exact h.discovered (Discovery.onFrame_move c.discovery bytes) (by simp)
    · split
      · rw [sessionFrame]
        split
        · exact h
        · rename_i session hsession
          obtain hdown | ⟨_, hnone⟩ := h
          · split
            · exact .inl hdown
            · split
              · exact .inl hdown
              · exact .inl (by simp [payload, refresh, hdown])
          · rw [hsession] at hnone
            cases hnone
      · exact h

theorem Halted.released (h : c.Halted) (link : Ppp.PPP) :
  (c.released link).Halted
  := by
  obtain hdown | ⟨hdead, _⟩ := h
  · exact .inl hdown
  · exact .inr ⟨hdead, rfl⟩

end Core

/-! ### What is noted -/

/-- The ticks of a wait, after a number of waits. -/
def ladder (k : ℕ) : ℕ :=
  min (redialTicks * 2 ^ k) redialTicksMax

theorem ladder_pos (k : ℕ) :
  0 < ladder k
  := by
  apply lt_min
  · exact Nat.mul_pos (by decide) (Nat.two_pow_pos k)
  · decide

theorem ladder_succ (k : ℕ) :
  ladder (k + 1) = min (ladder k * 2) redialTicksMax
  := by
  have hpow : redialTicks * 2 ^ (k + 1) = redialTicks * 2 ^ k * 2 := by
    rw [pow_succ, Nat.mul_assoc]
  rw [ladder, ladder, hpow]
  simp only [redialTicksMax]
  omega

example : (List.range 7).map ladder = [3, 6, 12, 24, 48, 60, 60] := by decide

/-- The waits since a session lasted. -/
def rungs : List Entry → ℕ
  | [] => 0
  | .held _ :: _ => 0
  | .armed _ :: a => rungs a + 1
  | _ :: a => rungs a

/-- An entry may follow the ones before it, the last first.  A dial is the first on its channel,
or a wait has just run out, or a session that lasted has just gone down. -/
def Entry.Fits : Entry → List Entry → Prop
  | .tick, _ => True
  | .dial now, a =>
      a = [] ∨ (∃ n a', a = List.replicate n .tick ++ .armed n :: a') ∨ ∃ a', a = .held now :: a'
  | .up _, _ => True
  | .held now, a =>
      ∃ since k a', a = List.replicate k .tick ++ .up since :: a' ∧ since + sessionHeld ≤ now
  | .armed n, a => n = ladder (rungs a)

/-- Every entry may follow the ones before it. -/
def Fitting (log : List Entry) : Prop :=
  ∀ e a, e :: a <:+ log → e.Fits a

theorem Fitting.cons {log : List Entry} {e : Entry} (h : Fitting log) (he : e.Fits log) :
  Fitting (e :: log)
  := by
  intro e' a hsuffix
  obtain heq | hsuffix := List.suffix_cons_iff.mp hsuffix
  · obtain ⟨rfl, rfl⟩ := List.cons.inj heq
    exact he
  · exact h e' a hsuffix

/-- The dials of a channel. -/
def dials : List Entry → ℕ
  | [] => 0
  | .dial _ :: a => dials a + 1
  | _ :: a => dials a

namespace Slot

/-- What is noted of a session is right.  A wait that runs was started after the last dial. -/
structure Noted (s : Slot) : Prop where
  fits : Fitting s.log
  next : s.redial.next = ladder (rungs s.log)
  up : ∀ since, s.upSince = some since →
    ∃ k a, s.log = List.replicate k .tick ++ .up since :: a
  wait : ∀ m, s.redial.wait = some m → s.dp.core.Halted ∧ 0 < m
    ∧ ∃ k a, s.log = List.replicate k .tick ++ .armed (k + m) :: a

structure Paced (s : Slot) : Prop where
  sound : s.dp.core.Sound
  watch : s.watch.isSome = s.upSince.isSome
  noted : s.dialed = true → s.Noted

/-- A session whose link is down is not up. -/
def Rested (s : Slot) : Prop :=
  s.dp.core.Halted → s.upSince = none

variable {md5 : Digest} {s : Slot} {now : ℕ} {draws : Draws} {random : Option UInt32}

/-- The queues do not matter. -/
theorem Paced.of_core (h : s.Paced) {d : PppoeDatapath} (hcore : d.core = s.dp.core)
    (sent : List (List UInt8)) :
  Paced { s with dp := d, sent }
  := by
  constructor
  · rw [hcore]
    exact h.sound
  · exact h.watch
  · intro hd
    have hn := h.noted hd
    refine ⟨hn.fits, hn.next, hn.up, ?_⟩
    rw [hcore]
    exact hn.wait

theorem Paced.flush (h : s.Paced) :
  s.flush.Paced
  := h.of_core (d := { s.dp with out := [] }) rfl _

theorem Paced.drainInbound (h : s.Paced) :
  s.drainInbound.Paced
  := h.of_core (d := { s.dp with inboundIp := [] }) rfl _

theorem takeDown_eq (h : s.watch.isSome = s.upSince.isSome) :
  s.takeDown = { s with upSince := none, watch := none }
  := by
  rw [takeDown]
  split
  · rfl
  · rename_i hup
    have hu : s.upSince = none := by simpa using hup
    have hw : s.watch = none := by simpa [hu] using h
    rw [← hw, ← hu]

theorem Paced.takeDown (h : s.Paced) :
  s.takeDown.Paced
  := by
  rw [takeDown_eq h.watch]
  refine ⟨h.sound, rfl, ?_⟩
  intro hd
  have hn := h.noted hd
  refine ⟨hn.fits, hn.next, ?_, hn.wait⟩
  intro since hnone
  cases hnone

@[simp]
theorem upSince_takeDown (s : Slot) :
  s.takeDown.upSince = none
  := by
  rw [Slot.takeDown]
  split
  · rfl
  · rename_i hup
    simpa using hup

@[simp]
theorem dp_takeDown (s : Slot) :
  s.takeDown.dp = s.dp
  := by
  rw [Slot.takeDown]
  split <;> rfl

@[simp]
theorem redial_takeDown (s : Slot) :
  s.takeDown.redial = s.redial
  := by
  rw [Slot.takeDown]
  split <;> rfl

@[simp]
theorem upSince_release (s : Slot) (random : Option UInt32) :
  (s.release random).upSince = s.upSince
  := by
  rw [Slot.release]
  split <;> rfl

@[simp]
theorem dialed_release (s : Slot) (random : Option UInt32) :
  (s.release random).dialed = s.dialed
  := by
  rw [Slot.release]
  split <;> rfl

@[simp]
theorem log_release (s : Slot) (random : Option UInt32) :
  (s.release random).log = s.log
  := by
  rw [Slot.release]
  split <;> rfl

@[simp]
theorem redial_release (s : Slot) (random : Option UInt32) :
  (s.release random).redial = s.redial
  := by
  rw [Slot.release]
  split <;> rfl

@[simp]
theorem upSince_reset (s : Slot) (random : Option UInt32) (now : ℕ) :
  (s.reset random now).2.upSince = s.upSince
  := by
  rw [Slot.reset]
  split <;> rfl

@[simp]
theorem upSince_arm (s : Slot) :
  s.arm.2.upSince = s.upSince
  := by
  rw [Slot.arm]
  split <;> rfl

@[simp]
theorem watch_release (s : Slot) (random : Option UInt32) :
  (s.release random).watch = s.watch
  := by
  rw [Slot.release]
  split <;> rfl

@[simp]
theorem watch_arm (s : Slot) :
  s.arm.2.watch = s.watch
  := by
  rw [Slot.arm]
  split <;> rfl

@[simp]
theorem dp_arm (s : Slot) :
  s.arm.2.dp = s.dp
  := by
  rw [Slot.arm]
  split <;> rfl

theorem sound_release (h : s.dp.core.Sound) (random : Option UInt32) :
  (s.release random).dp.core.Sound
  := by
  rw [Slot.release]
  cases hrel : s.dp.release random with
  | error e => exact h
  | ok dp =>
      obtain ⟨link, hidle, hcore⟩ := PppoeDatapath.core_release hrel
      dsimp only
      rw [hcore]
      exact h.step (Core.Step.released hidle : s.dp.core.Step Ppp.Observed.plainDigest _)

theorem halted_release (h : s.dp.core.Halted) (random : Option UInt32) :
  (s.release random).dp.core.Halted
  := by
  rw [Slot.release]
  cases hrel : s.dp.release random with
  | error e => exact h
  | ok dp =>
      obtain ⟨link, hidle, hcore⟩ := PppoeDatapath.core_release hrel
      dsimp only
      rw [hcore]
      exact h.released link

theorem Paced.release (h : s.Paced) (random : Option UInt32) :
  (s.release random).Paced
  := by
  constructor
  · exact sound_release h.sound random
  · rw [watch_release, upSince_release]
    exact h.watch
  · intro hd
    rw [dialed_release] at hd
    have hn := h.noted hd
    constructor
    · rw [log_release]
      exact hn.fits
    · rw [redial_release, log_release]
      exact hn.next
    · rw [upSince_release, log_release]
      exact hn.up
    · intro m hm
      rw [redial_release] at hm
      obtain ⟨hhalted, hwait⟩ := hn.wait m hm
      rw [log_release]
      exact ⟨halted_release hhalted random, hwait⟩

/-- A dial that fits, while no wait runs and the session is not up. -/
theorem Paced.reset (h : s.Paced)
    (hfits : s.dialed = true →
      s.redial.wait = none ∧ s.upSince = none ∧ (Entry.dial now).Fits s.log)
    (random : Option UInt32) :
  (s.reset random now).2.Paced
  := by
  rw [Slot.reset]
  cases hreset : s.dp.reset random with
  | error e => exact h
  | ok dp =>
      obtain ⟨link, hidle, hcore⟩ := PppoeDatapath.core_reset hreset
      dsimp only [note]
      refine ⟨?_, h.watch, ?_⟩
      · rw [hcore]
        exact h.sound.step (Core.Step.redialed hidle : s.dp.core.Step Ppp.Observed.plainDigest _)
      · intro hd
        have hn := h.noted hd
        obtain ⟨hwait, hup, hdial⟩ := hfits hd
        refine ⟨hn.fits.cons hdial, hn.next, ?_, ?_⟩
        · intro since hsince
          rw [hup] at hsince
          cases hsince
        · intro m hm
          rw [hwait] at hm
          cases hm

theorem arm_of_wait {m : ℕ} (h : s.redial.wait = some m) :
  s.arm = (false, s)
  := by
  simp [Slot.arm, Redial.arm, h]

theorem arm_of_none (h : s.redial.wait = none) :
  s.arm = (true, { s with
    redial := ⟨some s.redial.next, min (s.redial.next * 2) redialTicksMax⟩
    log := .armed s.redial.next :: s.log })
  := by
  simp [Slot.arm, Redial.arm, h, note]

/-- A link that is down is waited for. -/
theorem Paced.arm (h : s.Paced) (hdown : s.dp.core.Halted) (hup : s.upSince = none) :
  s.arm.2.Paced
  := by
  cases hwait : s.redial.wait with
  | some m =>
      rw [arm_of_wait hwait]
      exact h
  | none =>
      rw [arm_of_none hwait]
      refine ⟨h.sound, h.watch, ?_⟩
      intro hd
      have hn := h.noted hd
      refine ⟨hn.fits.cons hn.next, ?_, ?_, ?_⟩
      · dsimp only [rungs]
        rw [ladder_succ, hn.next]
      · intro since hsince
        rw [hup] at hsince
        cases hsince
      · intro m hm
        obtain rfl := Option.some.inj hm
        refine ⟨hdown, ?_, 0, s.log, ?_⟩
        · rw [hn.next]
          apply ladder_pos
        · rw [Nat.zero_add]
          rfl

theorem isSome_wait_arm (s : Slot) :
  s.arm.2.redial.wait.isSome = true
  := by
  cases hwait : s.redial.wait with
  | some m =>
      rw [arm_of_wait hwait, hwait]
      rfl
  | none =>
      rw [arm_of_none hwait]
      rfl

/-- A session that lasted came up long enough ago. -/
theorem exists_since_of_held {upSince : Option ℕ} (h : Pppoe.held upSince now = true) :
  ∃ since, upSince = some since ∧ since + sessionHeld ≤ now
  := by
  cases upSince with
  | none => cases h
  | some since =>
      refine ⟨since, rfl, ?_⟩
      have hle : sessionHeld ≤ now - since := of_decide_eq_true h
      simp only [sessionHeld] at hle ⊢
      omega

/-- A session that lasted has gone down: the waits start over. -/
theorem Paced.held (h : s.Paced) (hheld : Pppoe.held s.upSince now = true) :
  Paced ({ s.takeDown with redial := .default }.note (.held now))
  := by
  rw [takeDown_eq h.watch]
  refine ⟨h.sound, rfl, ?_⟩
  intro hd
  have hn := h.noted hd
  obtain ⟨since, hup, hle⟩ := exists_since_of_held hheld
  obtain ⟨k, a, hlog⟩ := hn.up since hup
  refine ⟨hn.fits.cons ⟨since, k, a, hlog, hle⟩, rfl, ?_, ?_⟩
  · intro since hnone
    cases hnone
  · intro m hnone
    cases hnone

/-! ### What is done about a phase -/

/-- The link is up, and the session is noted to be so. -/
theorem Paced.up (h : s.Paced) (hlive : ¬ s.dp.core.Halted)
    (est : Established) :
  Paced ({ s with upSince := some now, watch := some est }.note (.up now))
  := by
  refine ⟨h.sound, rfl, ?_⟩
  intro hd
  have hn := h.noted hd
  refine ⟨hn.fits.cons trivial, hn.next, ?_, ?_⟩
  · intro since hsince
    obtain rfl := Option.some.inj hsince
    exact ⟨0, s.log, rfl⟩
  · intro m hm
    exact absurd (hn.wait m hm).1 hlive

theorem Paced.applyPhase (h : s.Paced) (now : ℕ) (draws : Draws) :
  (s.applyPhase now draws s.dp.phase).Paced
  := by
  have hhalted := PppoeDatapath.phase_halted s.dp
  cases hphase : s.dp.phase with
  | established est =>
      have hlive : ¬ s.dp.core.Halted := by simp [← hhalted, hphase]
      rw [Slot.applyPhase]
      apply Paced.drainInbound
      split
      · exact h.up hlive est
      · exact h
  | linkDown =>
      have hdown : s.dp.core.Halted := hhalted.mp (.inl hphase)
      rw [Slot.applyPhase]
      split
      · rename_i hheld
        have hreset := (h.held hheld).reset
          (fun _ => ⟨rfl, upSince_takeDown s, .inr (.inr ⟨_, rfl⟩)⟩) draws.reset
        apply Paced.flush
        split
        · exact hreset
        · exact hreset.release _
      · have harm := h.takeDown.arm (by rwa [dp_takeDown]) (upSince_takeDown s)
        dsimp only
        split
        · exact harm.release _
        · exact harm
  | dead =>
      have hdown : s.dp.core.Halted := hhalted.mp (.inr hphase)
      exact h.takeDown.arm (by rwa [dp_takeDown]) (upSince_takeDown s)
  | discovery => exact h
  | ppp => exact h

/-- A link that is down afterwards is not up, and is waited for, unless it had lasted. -/
theorem applyPhase_halted (s : Slot) (now : ℕ) (draws : Draws)
    (h : (s.applyPhase now draws s.dp.phase).dp.core.Halted) :
  (s.applyPhase now draws s.dp.phase).upSince = none
    ∧ ((s.applyPhase now draws s.dp.phase).redial.wait.isSome = true
      ∨ Pppoe.held s.upSince now = true)
  := by
  have hhalted := PppoeDatapath.phase_halted s.dp
  cases hphase : s.dp.phase with
  | established est =>
      have hlive : ¬ s.dp.core.Halted := by simp [← hhalted, hphase]
      rw [hphase, Slot.applyPhase] at h
      split at h <;> exact absurd h hlive
  | linkDown =>
      rw [Slot.applyPhase]
      split
      · rename_i hheld
        refine ⟨?_, .inr hheld⟩
        dsimp only [flush]
        split
        · rw [upSince_reset]
          exact upSince_takeDown s
        · rw [upSince_release, upSince_reset]
          exact upSince_takeDown s
      · dsimp only
        split
        · rw [upSince_release, redial_release, upSince_arm]
          exact ⟨upSince_takeDown s, .inl (isSome_wait_arm _)⟩
        · rw [upSince_arm]
          exact ⟨upSince_takeDown s, .inl (isSome_wait_arm _)⟩
  | dead =>
      rw [Slot.applyPhase, upSince_arm]
      exact ⟨upSince_takeDown s, .inl (isSome_wait_arm _)⟩
  | discovery =>
      have hlive : ¬ s.dp.core.Halted := by simp [← hhalted, hphase]
      rw [hphase] at h
      exact absurd h hlive
  | ppp =>
      have hlive : ¬ s.dp.core.Halted := by simp [← hhalted, hphase]
      rw [hphase] at h
      exact absurd h hlive

theorem dials_arm (s : Slot) :
  dials s.arm.2.log = dials s.log
  := by
  rw [Slot.arm]
  split <;> rfl

@[simp]
theorem log_takeDown (s : Slot) :
  s.takeDown.log = s.log
  := by
  rw [Slot.takeDown]
  split <;> rfl

/-- Of the phases, only the end of a session that lasted makes us dial. -/
theorem dials_applyPhase (s : Slot) (now : ℕ) (draws : Draws) (p : DpPhase) :
  dials (s.applyPhase now draws p).log = dials s.log
    ∨ (s.applyPhase now draws p).log = .dial now :: .held now :: s.log
  := by
  cases p with
  | established est =>
      left
      rw [Slot.applyPhase, Slot.drainInbound]
      dsimp only
      split <;> rfl
  | linkDown =>
      rw [Slot.applyPhase]
      split
      · rw [Slot.reset]
        split
        · right
          simp [Slot.flush, note]
        · left
          simp [Slot.flush, note, dials]
      · left
        dsimp only
        split
        · rw [log_release, dials_arm, log_takeDown]
        · rw [dials_arm, log_takeDown]
  | dead =>
      left
      rw [Slot.applyPhase, dials_arm, log_takeDown]
  | discovery => exact .inl rfl
  | ppp => exact .inl rfl

/-! ### What is done before -/

theorem Paced.received (h : s.Paced) (md5 : Digest) (frame : List UInt8) :
  (s.received md5 frame).Paced
  := by
  apply Paced.drainInbound
  apply Paced.flush
  refine ⟨?_, h.watch, ?_⟩
  · dsimp only
    rw [PppoeDatapath.core_onL2Frame]
    exact h.sound.frame frame
  · intro hd
    have hn := h.noted hd
    refine ⟨hn.fits, hn.next, hn.up, ?_⟩
    intro m hm
    obtain ⟨hhalted, hwait⟩ := hn.wait m hm
    dsimp only
    rw [PppoeDatapath.core_onL2Frame]
    exact ⟨hhalted.frame frame, hwait⟩

/-- The timers of the datapath. -/
theorem Paced.onTick (h : s.Paced) :
  Paced { s with dp := s.dp.onTick }
  := by
  refine ⟨?_, h.watch, ?_⟩
  · dsimp only
    rw [PppoeDatapath.core_onTick]
    exact h.sound.tick
  · intro hd
    have hn := h.noted hd
    refine ⟨hn.fits, hn.next, hn.up, ?_⟩
    intro m hm
    obtain ⟨hhalted, hwait⟩ := hn.wait m hm
    dsimp only
    rw [PppoeDatapath.core_onTick]
    exact ⟨h.sound.halted_tick hhalted, hwait⟩

theorem due_of_none {r : Redial} (h : r.wait = none) :
  r.due = (false, r)
  := by
  simp [Redial.due, h]

theorem due_of_some {r : Redial} {m : ℕ} (h : r.wait = some m) :
  r.due
    = (decide (m - 1 = 0), { r with wait := if 0 < m - 1 then some (m - 1) else none })
  := by
  simp [Redial.due, h]

theorem cons_replicate (k : ℕ) (e : Entry) (a : List Entry) :
  e :: (List.replicate k e ++ a) = List.replicate (k + 1) e ++ a
  := rfl

/-- A tick is noted. -/
theorem Noted.due (h : s.Noted) :
  Noted ({ s with redial := s.redial.due.2 }.note .tick)
  := by
  have hup : ∀ since, s.upSince = some since →
      ∃ k a, .tick :: s.log = List.replicate k .tick ++ .up since :: a := by
    intro since hsince
    obtain ⟨k, a, hlog⟩ := h.up since hsince
    exact ⟨k + 1, a, by rw [hlog, cons_replicate]⟩
  cases hwait : s.redial.wait with
  | none =>
      rw [due_of_none hwait]
      refine ⟨h.fits.cons trivial, h.next, hup, ?_⟩
      intro m hm
      rw [note, hwait] at hm
      cases hm
  | some m =>
      rw [due_of_some hwait]
      refine ⟨h.fits.cons trivial, h.next, hup, ?_⟩
      intro m' hm
      obtain ⟨hhalted, hpos, k, a, hlog⟩ := h.wait m hwait
      simp only [note] at hm ⊢
      split at hm
      · rename_i hlt
        obtain rfl := Option.some.inj hm
        refine ⟨hhalted, hlt, k + 1, a, ?_⟩
        have hm : k + m = k + 1 + (m - 1) := by omega
        rw [hlog, cons_replicate, hm]
      · cases hm

/-- It is time to dial only if the wait was as long as it had to be. -/
theorem Noted.dial_due (h : s.Noted) (hdue : s.redial.due.1 = true) :
  s.redial.due.2.wait = none ∧ s.dp.core.Halted
    ∧ ∃ n a, .tick :: s.log = List.replicate n .tick ++ .armed n :: a
  := by
  cases hwait : s.redial.wait with
  | none =>
      rw [due_of_none hwait] at hdue
      cases hdue
  | some m =>
      rw [due_of_some hwait] at hdue ⊢
      obtain ⟨hhalted, hpos, k, a, hlog⟩ := h.wait m hwait
      have hm : m - 1 = 0 := of_decide_eq_true hdue
      have hm' : m = 1 := by omega
      refine ⟨by simp [hm], hhalted, k + 1, a, ?_⟩
      rw [hlog, cons_replicate, hm']

theorem Paced.ticked (h : s.Paced) (hrest : s.Rested) (now : ℕ) (draws : Draws) :
  (s.ticked now draws).Paced
  := by
  have hdue : Paced ({ s with redial := s.redial.due.2 }.note .tick) :=
    ⟨h.sound, h.watch, fun hd => (h.noted hd).due⟩
  apply Paced.flush
  apply Paced.onTick
  split
  · rename_i htime
    apply Paced.flush
    apply hdue.reset
    intro hd
    obtain ⟨hwait, hhalted, n, a, hlog⟩ := (h.noted hd).dial_due htime
    exact ⟨hwait, hrest hhalted, .inr (.inl ⟨n, a, hlog⟩)⟩
  · exact hdue

theorem Paced.packet (h : s.Paced) (ip : List UInt8) :
  (s.packet ip).Paced
  := by
  apply Paced.flush
  apply h.of_core
  rw [PppoeDatapath.onTunIp]
  split <;> rfl

/-- A new channel. -/
theorem Paced.connect (h : s.Paced) (now : ℕ) (draws : Draws) :
  (s.connect now draws).Paced
  := by
  rw [Slot.connect]
  apply Paced.flush
  rw [Slot.reset]
  cases hreset : s.dp.reset draws.due with
  | error e =>
      apply Paced.takeDown
      refine ⟨?_, ?_, ?_⟩
      · simp only [dp_arm, Bool.false_eq_true, if_false]
        exact sound_release (s := { s with redial := .default, log := [] }) h.sound draws.release
      · simp only [watch_arm, watch_release, upSince_arm, upSince_release, Bool.false_eq_true,
          if_false]
        exact h.watch
      · intro hd
        cases hd
  | ok dp =>
      obtain ⟨link, hidle, hcore⟩ := PppoeDatapath.core_reset hreset
      simp only [if_true, note]
      rw [takeDown_eq (s := { s with dp, redial := .default, log := [.dial now], dialed := true })
        h.watch]
      refine ⟨?_, rfl, ?_⟩
      · dsimp only
        rw [hcore]
        exact h.sound.step (Core.Step.redialed hidle : s.dp.core.Step Ppp.Observed.plainDigest _)
      · intro _
        refine ⟨?_, rfl, ?_, ?_⟩
        · apply Fitting.cons
          · intro e a hsuffix
            cases List.suffix_nil.mp hsuffix
          · exact .inl rfl
        · intro since hnone
          cases hnone
        · intro m hnone
          cases hnone

/-- What holds of a session between two events. -/
structure Steady (s : Slot) : Prop where
  paced : s.Paced
  rested : s.Rested

theorem Steady.takeDown (h : s.Steady) :
  s.takeDown.Steady
  := ⟨h.paced.takeDown, fun _ => upSince_takeDown s⟩

theorem Steady.connect (h : s.Steady) (now : ℕ) (draws : Draws) :
  (s.connect now draws).Steady
  := ⟨h.paced.connect now draws, fun _ => upSince_takeDown _⟩

theorem Steady.handleL2 (h : s.Steady) (md5 : Digest) (now : ℕ) (draws : Draws)
    (frame : List UInt8) :
  (s.handleL2 md5 now draws frame).Steady
  := ⟨(h.paced.received md5 frame).applyPhase now draws,
    fun hdown => (applyPhase_halted _ now draws hdown).1⟩

theorem Steady.tick (h : s.Steady) (now : ℕ) (draws : Draws) :
  (s.tick now draws).Steady
  := ⟨(h.paced.ticked h.rested now draws).applyPhase now draws,
    fun hdown => (applyPhase_halted _ now draws hdown).1⟩

theorem Steady.packet (h : s.Steady) (ip : List UInt8) :
  (s.packet ip).Steady
  := by
  refine ⟨h.paced.packet ip, ?_⟩
  have hcore : (s.packet ip).dp.core = s.dp.core := by
    rw [Slot.packet, flush, PppoeDatapath.onTunIp]
    split <;> rfl
  rw [Rested, hcore]
  exact h.rested

end Slot

/-! ### A number that is off the wire -/

/-- The number of the session that a frame is of. -/
def sessionIdOf (frame : List UInt8) : Option UInt16 :=
  if u16OfBe ((frame.drop 12).take 2) = etherTypeSession then
    some (u16OfBe ((frame.drop 16).take 2))
  else none

theorem sessionIdOf_putEthHeader (dst src : MacAddr) (ethertype : UInt16) (rest : List UInt8) :
  sessionIdOf (putEthHeader dst src ethertype ++ rest)
    = if ethertype = etherTypeSession then some (u16OfBe ((rest.drop 2).take 2)) else none
  := by
  have htype : ((putEthHeader dst src ethertype ++ rest).drop 12).take 2 = u16ToBe ethertype := by
    have hlen : (dst.toList ++ src.toList).length = 12 := by simp
    rw [putEthHeader, List.append_assoc, List.drop_left' hlen]
    exact List.take_left' (length_u16ToBe ethertype)
  have hid : (putEthHeader dst src ethertype ++ rest).drop 16 = rest.drop 2 := by
    have hrest : (putEthHeader dst src ethertype ++ rest).drop 14 = rest :=
      List.drop_left' (length_putEthHeader dst src ethertype)
    conv_rhs => rw [← hrest, List.drop_drop]
  rw [sessionIdOf, htype, hid, u16OfBe_u16ToBe]

theorem sessionIdOf_buildSessionFrame (dst src : MacAddr) (id : UInt16) (payload : List UInt8) :
  sessionIdOf (buildSessionFrame dst src id payload) = some id
  := by
  rw [buildSessionFrame]
  simp only [List.append_assoc]
  rw [sessionIdOf_putEthHeader, if_pos rfl]
  exact congrArg some (u16OfBe_u16ToBe id)

theorem sessionIdOf_buildPadi (src : MacAddr) (service : List UInt8) (uniq : Option (List UInt8)) :
  sessionIdOf (buildPadi src service uniq) = none
  := by
  rw [buildPadi, sessionIdOf_putEthHeader, if_neg (by decide)]

theorem sessionIdOf_buildPadr (src ac : MacAddr) (service : List UInt8)
    (cookie uniq : Option (List UInt8)) :
  sessionIdOf (buildPadr src ac service cookie uniq) = none
  := by
  rw [buildPadr, sessionIdOf_putEthHeader, if_neg (by decide)]

/-- What discovery sends is of no session. -/
theorem Discovery.Move.sessionIdOf_send {d d' : Discovery} {e : Discovery.Event}
    {bytes : List UInt8} (h : d.Move e (.send bytes) d') :
  sessionIdOf bytes = none
  := by
  cases h with
  | started => apply sessionIdOf_buildPadi
  | offered => apply sessionIdOf_buildPadr
  | resent =>
      rw [Discovery.resend]
      split
      · apply sessionIdOf_buildPadr
      · apply sessionIdOf_buildPadi

/-- Only a PADS gives a number. -/
theorem Discovery.Move.exists_pads {d d' : Discovery} {f : List UInt8} {mac : MacAddr}
    {x : UInt16} (h : d.Move (.frame f) (.established ⟨mac, x⟩) d') :
  ∃ p, parseDiscoveryFrame f = .ok p ∧ p.code = codePads ∧ p.sessionId = x ∧ p.eth.src = mac
  := by
  cases h with
  | confirmed _ hparse hconf => exact ⟨_, hparse, hconf.code, rfl, rfl⟩

namespace PppoeDatapath

variable {md5 : Digest} {d : PppoeDatapath} {x : UInt16}

/-- The session does not have a number, and no frame with it is queued. -/
def Quiet (x : UInt16) (d : PppoeDatapath) : Prop :=
  (∀ p ∈ d.session, p.sessionId ≠ x) ∧ ∀ f ∈ d.out, sessionIdOf f ≠ some x

theorem Quiet.drainPppOut (h : d.Quiet x) :
  d.drainPppOut.Quiet x
  := by
  rw [PppoeDatapath.drainPppOut]
  split
  · exact h
  · rename_i p hp
    refine ⟨h.1, ?_⟩
    intro f hf
    obtain hf | hf := List.mem_append.mp hf
    · exact h.2 f hf
    · obtain ⟨payload, _, rfl⟩ := List.mem_map.mp hf
      rw [sessionIdOf_buildSessionFrame]
      intro hx
      exact h.1 p hp (Option.some.inj hx)

theorem Quiet.refreshEstablished (h : d.Quiet x) :
  d.refreshEstablished.Quiet x
  := by
  rw [PppoeDatapath.refreshEstablished]
  split <;> exact h

/-- Discovery does not give the number. -/
theorem Quiet.applyDiscoveryAction {e : Discovery.Event} {a : Discovery.Action} {disc : Discovery}
    (h : d.Quiet x) (hmove : d.discovery.Move e a disc)
    (hx : ∀ mac, a ≠ .established ⟨mac, x⟩) :
  (PppoeDatapath.applyDiscoveryAction { d with discovery := disc } a).Quiet x
  := by
  cases a with
  | send bytes =>
      refine ⟨h.1, ?_⟩
      intro f hf
      obtain hf | hf := List.mem_append.mp hf
      · exact h.2 f hf
      · obtain rfl := List.mem_singleton.mp hf
        rw [hmove.sessionIdOf_send]
        exact Option.some_ne_none x ∘ Eq.symm
  | idle => exact h
  | established est =>
      have hid : est.sessionId ≠ x := by
        rintro rfl
        exact hx est.acMac rfl
      have hsession : Quiet x { d with
          discovery := disc, session := some ⟨est.acMac, est.sessionId⟩ } := by
        refine ⟨?_, h.2⟩
        intro p hp
        obtain rfl := Option.some.inj hp
        exact hid
      rw [PppoeDatapath.applyDiscoveryAction, onDiscoveryEstablished]
      dsimp only
      split
      · apply Quiet.refreshEstablished
        apply Quiet.drainPppOut
        exact hsession
      · exact hsession
  | failed =>
      rw [PppoeDatapath.applyDiscoveryAction]
      split <;> exact h

theorem Quiet.onSessionPayload (h : d.Quiet x) (md5 : Digest) (payload : List UInt8) :
  (d.onSessionPayload md5 payload).Quiet x
  := by
  have hend : ∀ d' : PppoeDatapath, d'.Quiet x →
      Quiet x (if d'.established.isSome ∧ d'.linkDown = false ∧ d'.ppp.lcpClosed then
          { d' with linkDown := true, linkDownReason := some "lcp-closed" }
        else d') := by
    intro d' hd'
    split <;> exact hd'
  apply hend
  apply Quiet.refreshEstablished
  apply Quiet.drainPppOut
  split <;> exact h

theorem Quiet.onL2Frame (h : d.Quiet x) (md5 : Digest) {frame : List UInt8}
    (hx : ∀ mac, (d.discovery.onFrame frame).1 ≠ .established ⟨mac, x⟩) :
  (d.onL2Frame md5 frame).Quiet x
  := by
  rw [PppoeDatapath.onL2Frame]
  split
  · exact h
  · split
    · exact h.applyDiscoveryAction (Discovery.onFrame_move d.discovery frame) hx
    · split
      · rw [onSessionFrame]
        split
        · exact h
        · split
          · exact h
          · split
            · exact h
            · exact h.onSessionPayload md5 _
      · exact h

theorem Quiet.onTunIp (h : d.Quiet x) (ip : List UInt8) :
  (d.onTunIp ip).Quiet x
  := by
  rw [PppoeDatapath.onTunIp]
  split
  · exact h
  · rename_i p hp
    refine ⟨h.1, ?_⟩
    intro f hf
    obtain hf | hf := List.mem_append.mp hf
    · exact h.2 f hf
    · obtain rfl := List.mem_singleton.mp hf
      rw [sessionIdOf_buildSessionFrame]
      intro hx
      exact h.1 p hp (Option.some.inj hx)

theorem Quiet.tickLiveness (h : d.Quiet x) :
  d.tickLiveness.Quiet x
  := by
  have hecho : ∀ d' : PppoeDatapath, d'.Quiet x → d'.sendEcho.Quiet x := by
    intro d' hd'
    exact Quiet.drainPppOut (d := { d' with ppp := d'.ppp.sendEchoRequest.2 }) hd'
  have hscore : ∀ d' : PppoeDatapath, d'.Quiet x →
      Quiet x (if echoDeadThreshold ≤ d'.echoMisses then
          { d' with linkDown := true, linkDownReason := some "echo-timeout" }
        else d'.sendEcho) := by
    intro d' hd'
    split
    · exact hd'
    · exact hecho d' hd'
  rw [PppoeDatapath.tickLiveness]
  split
  · exact h
  · split
    · exact h
    · split
      · exact hecho d h
      · dsimp only
        split
        · exact h
        · apply hscore
          exact h

theorem Quiet.onTick (h : d.Quiet x) :
  d.onTick.Quiet x
  := by
  have hmove := Discovery.onTick_move d.discovery
  have hdisc := h.applyDiscoveryAction hmove (by
    intro mac ha
    rw [ha] at hmove
    cases hmove)
  have hdead : ∀ d' : PppoeDatapath, d'.Quiet x →
      Quiet x (if d'.session.isSome ∧ d'.linkDown = false ∧ d'.ppp.phase = .dead then
          { d' with linkDown := true, linkDownReason := some "ppp-timeout" }
        else d') := by
    intro d' hd'
    split <;> exact hd'
  apply Quiet.tickLiveness
  apply hdead
  apply Quiet.drainPppOut
  exact hdisc

theorem quiet_release {random : Option UInt32} {d' : PppoeDatapath}
    (h : d.release random = .ok d') (x : UInt16) :
  d'.Quiet x
  := by
  obtain ⟨ppp, rfl⟩ := release_eq_ok h
  constructor
  · intro p hp
    cases hp
  · intro f hf
    cases hf

theorem quiet_reset {random : Option UInt32} {d' : PppoeDatapath}
    (h : d.reset random = .ok d') (x : UInt16) :
  d'.Quiet x
  := by
  obtain ⟨link, _, hcore⟩ := core_reset h
  constructor
  · intro p hp
    have hnone : d'.session = none := congrArg Core.session hcore
    rw [hnone] at hp
    cases hp
  · intro f hf
    rw [(reset_eq_ok h).1] at hf
    obtain rfl := List.mem_singleton.mp hf
    rw [sessionIdOf_buildPadi]
    exact Option.some_ne_none x ∘ Eq.symm

end PppoeDatapath

namespace Slot

variable {md5 : Digest} {s s₁ s₂ s₃ : Slot} {x : UInt16}

/-- Where a number is off the wire it stays off, and no frame with it is sent. -/
def Silent (x : UInt16) (s s' : Slot) : Prop :=
  s.dp.Quiet x → s'.dp.Quiet x
    ∧ ∃ new, s'.sent = s.sent ++ new ∧ ∀ f ∈ new, sessionIdOf f ≠ some x

theorem silent_of_sent (h : s₁.dp.Quiet x → s₂.dp.Quiet x) (hsent : s₂.sent = s₁.sent) :
  Silent x s₁ s₂
  := by
  intro hquiet
  refine ⟨h hquiet, [], ?_, ?_⟩
  · rw [hsent, List.append_nil]
  · intro f hf
    cases hf

theorem Silent.refl (x : UInt16) (s : Slot) :
  Silent x s s
  := silent_of_sent id rfl

theorem Silent.trans (h : Silent x s₁ s₂) (h' : Silent x s₂ s₃) :
  Silent x s₁ s₃
  := by
  intro hquiet
  obtain ⟨hquiet, new, hsent, hnew⟩ := h hquiet
  obtain ⟨hquiet, new', hsent', hnew'⟩ := h' hquiet
  refine ⟨hquiet, new ++ new', ?_, ?_⟩
  · rw [hsent', hsent, List.append_assoc]
  · intro f hf
    obtain hf | hf := List.mem_append.mp hf
    · exact hnew f hf
    · exact hnew' f hf

theorem silent_flush (x : UInt16) (s : Slot) :
  Silent x s s.flush
  := by
  intro hquiet
  refine ⟨⟨hquiet.1, ?_⟩, s.dp.out, rfl, hquiet.2⟩
  intro f hf
  cases hf

theorem silent_takeDown (x : UInt16) (s : Slot) :
  Silent x s s.takeDown
  := by
  rw [takeDown]
  split <;> exact silent_of_sent id rfl

theorem silent_arm (x : UInt16) (s : Slot) :
  Silent x s s.arm.2
  := by
  rw [arm]
  split <;> exact silent_of_sent id rfl

theorem silent_release (x : UInt16) (s : Slot) (random : Option UInt32) :
  Silent x s (s.release random)
  := by
  rw [release]
  split
  · rename_i dp hrel
    exact silent_of_sent (fun _ => PppoeDatapath.quiet_release hrel x) rfl
  · apply Silent.refl

theorem silent_reset (x : UInt16) (s : Slot) (random : Option UInt32) (now : ℕ) :
  Silent x s (s.reset random now).2
  := by
  rw [reset]
  split
  · rename_i dp hreset
    exact silent_of_sent (fun _ => PppoeDatapath.quiet_reset hreset x) rfl
  · apply Silent.refl

theorem silent_applyPhase (x : UInt16) (s : Slot) (now : ℕ) (draws : Draws) (p : DpPhase) :
  Silent x s (s.applyPhase now draws p)
  := by
  cases p with
  | established est =>
      rw [applyPhase]
      split <;> exact silent_of_sent id rfl
  | linkDown =>
      rw [applyPhase]
      split
      · refine Silent.trans ?_ (silent_flush x _)
        have hheld : Silent x s ({ s.takeDown with redial := .default }.note (.held now)) :=
          (silent_takeDown x s).trans (silent_of_sent id rfl)
        have hreset := hheld.trans (silent_reset x _ draws.reset now)
        dsimp only
        split
        · exact hreset
        · exact hreset.trans (silent_release x _ draws.release)
      · have harm := (silent_takeDown x s).trans (silent_arm x _)
        dsimp only
        split
        · exact harm.trans (silent_release x _ draws.release)
        · exact harm
  | dead => exact (silent_takeDown x s).trans (silent_arm x _)
  | discovery => exact Silent.refl x s
  | ppp => exact Silent.refl x s

theorem silent_handleL2 (md5 : Digest) (s : Slot) (now : ℕ) (draws : Draws) {frame : List UInt8}
    (hx : ∀ mac, (s.dp.discovery.onFrame frame).1 ≠ .established ⟨mac, x⟩) :
  Silent x s (s.handleL2 md5 now draws frame)
  := by
  refine Silent.trans ?_ (silent_applyPhase x _ now draws _)
  have hframe : Silent x s { s with dp := s.dp.onL2Frame md5 frame } :=
    silent_of_sent (fun hquiet => hquiet.onL2Frame md5 hx) rfl
  exact (hframe.trans (silent_flush x _)).trans (silent_of_sent id rfl)

theorem silent_tick (x : UInt16) (s : Slot) (now : ℕ) (draws : Draws) :
  Silent x s (s.tick now draws)
  := by
  refine Silent.trans ?_ (silent_applyPhase x _ now draws _)
  refine Silent.trans ?_ (silent_flush x _)
  refine Silent.trans ?_ (silent_of_sent (fun hquiet => hquiet.onTick) rfl)
  have hdue : Silent x s ({ s with redial := s.redial.due.2 }.note .tick) :=
    silent_of_sent id rfl
  split
  · exact (hdue.trans (silent_reset x _ draws.due now)).trans (silent_flush x _)
  · exact hdue

theorem silent_packet (x : UInt16) (s : Slot) (ip : List UInt8) :
  Silent x s (s.packet ip)
  := by
  refine Silent.trans ?_ (silent_flush x { s with dp := s.dp.onTunIp ip })
  exact silent_of_sent (fun hquiet => hquiet.onTunIp ip) rfl

theorem silent_connect (x : UInt16) (s : Slot) (now : ℕ) (draws : Draws) :
  Silent x s (s.connect now draws)
  := by
  refine Silent.trans ?_ (silent_flush x _)
  refine Silent.trans ?_ (silent_takeDown x _)
  refine Silent.trans ?_ (silent_of_sent id rfl)
  have hnew : Silent x s { s with redial := .default, log := [] } := silent_of_sent id rfl
  have hreset := hnew.trans (silent_reset x _ draws.due now)
  split
  · exact hreset
  · exact (hreset.trans (silent_release x _ draws.release)).trans (silent_arm x _)

/-- A link that is down is dealt with, and the session is given up. -/
def Frees (now : ℕ) (draws : Draws) (s : Slot) : Prop :=
  s.dp.phase = .linkDown
    ∧ if Pppoe.held s.upSince now then
        (s.dp.reset draws.reset).isOk = true ∨ (s.dp.release draws.release).isOk = true
      else s.redial.wait = none ∧ (s.dp.release draws.release).isOk = true

instance (now : ℕ) (draws : Draws) (s : Slot) : Decidable (s.Frees now draws) :=
  inferInstanceAs (Decidable (_ ∧ ite _ _ _))

theorem quiet_release_of_isOk (random : Option UInt32) (h : (s.dp.release random).isOk = true)
    (x : UInt16) :
  (s.release random).dp.Quiet x
  := by
  rw [release]
  cases hrel : s.dp.release random with
  | error e =>
      rw [hrel] at h
      cases h
  | ok dp => exact PppoeDatapath.quiet_release hrel x

/-- To dial, or else to give up. -/
theorem quiet_reset_of_isOk {draws : Draws}
    (h : (s.dp.reset draws.reset).isOk = true ∨ (s.dp.release draws.release).isOk = true)
    (now : ℕ) (x : UInt16) :
  (if (s.reset draws.reset now).1 then (s.reset draws.reset now).2
    else (s.reset draws.reset now).2.release draws.release).dp.Quiet x
  := by
  rw [Slot.reset]
  cases hreset : s.dp.reset draws.reset with
  | ok dp => exact PppoeDatapath.quiet_reset hreset x
  | error e =>
      rw [hreset] at h
      obtain h | h := h
      · cases h
      · exact quiet_release_of_isOk draws.release h x

theorem Frees.quiet {now : ℕ} {draws : Draws} (h : s.Frees now draws) (x : UInt16) :
  (s.applyPhase now draws s.dp.phase).dp.Quiet x
  := by
  obtain ⟨hphase, h⟩ := h
  rw [hphase, applyPhase]
  split at h
  · rename_i hheld
    rw [if_pos hheld]
    refine (silent_flush x _ ?_).1
    apply quiet_reset_of_isOk
    rwa [note, dp_takeDown]
  · rename_i hheld
    obtain ⟨hwait, hrel⟩ := h
    have hnone : s.takeDown.redial.wait = none := by rwa [redial_takeDown]
    rw [if_neg hheld, arm_of_none hnone]
    apply quiet_release_of_isOk
    dsimp only
    rwa [dp_takeDown]

end Slot

/-! ### Over a run -/

namespace Driver

variable {md5 : Digest} {d d' : Driver} {e : Event} {i : ℕ} {s s' : Slot}

theorem Event.steady_act (h : s.Steady) (md5 : Digest) (macs : List MacAddr) (i : ℕ) (e : Event) :
  (e.act md5 macs i s).Steady
  := by
  cases e with
  | connect now draws => exact h.connect now (draws i)
  | lost => exact h.takeDown
  | frame now draws bytes =>
      rw [act]
      split
      · split
        · exact h.handleL2 md5 now (draws i) bytes
        · exact h
      · exact h.handleL2 md5 now (draws i) bytes
      · exact h
  | packet j ip =>
      rw [act]
      split
      · exact h.packet ip
      · exact h
  | tick now draws => exact h.tick now (draws i)

/-- A step, as the session of an index has it. -/
theorem slot_of_step (h : d.step md5 e = some d') (hs' : d'.slots[i]? = some s') :
  ∃ s, d.slots[i]? = some s ∧ s' = e.act md5 (d.slots.map (·.dp.ourMac)) i s
  := by
  rw [step] at h
  split at h
  · obtain rfl := Option.some.inj h
    rw [List.getElem?_mapIdx, Option.map_eq_some_iff] at hs'
    obtain ⟨s, hs, rfl⟩ := hs'
    exact ⟨s, hs, rfl⟩
  · cases h

theorem Start.steady (h : d.Start md5) (hs : d.slots[i]? = some s) :
  s.Steady
  := by
  obtain ⟨hnew, hreach⟩ := h.2 s (List.mem_of_getElem? hs)
  rw [hnew]
  refine ⟨⟨hreach.sound, rfl, ?_⟩, fun _ => rfl⟩
  intro hd
  cases hd

theorem steady_of_run {es : List Event} (h₀ : d.Start md5)
    (h : Run (fun d e d' => d.step md5 e = some d') d es d') :
  ∀ (i : ℕ) (s : Slot), d'.slots[i]? = some s → s.Steady
  := by
  apply h.invariant
  · intro i s hs
    exact h₀.steady hs
  · intro d e d' hd hstep i s' hs'
    obtain ⟨s, hs, rfl⟩ := slot_of_step hstep hs'
    exact Event.steady_act (hd i s hs) md5 _ i e

/-- The session of an index gets a frame. -/
def Reaches (macs : List MacAddr) (i : ℕ) (bytes : List UInt8) : Prop :=
  demux bytes macs = .all ∨ demux bytes macs = .one i

/-- An event on which a link that is down is dealt with, and the session is given up. -/
def Event.Frees (md5 : Digest) (macs : List MacAddr) (i : ℕ) (s : Slot) : Event → Prop
  | frame now draws bytes =>
      Reaches macs i bytes ∧ (s.received md5 bytes).Frees now (draws i)
  | tick now draws => (s.ticked now (draws i)).Frees now (draws i)
  | _ => False

/-- A PADS that gives a number to the session. -/
def Event.Assigns (x : UInt16) (macs : List MacAddr) (i : ℕ) (s : Slot) : Event → Prop
  | frame _ _ bytes =>
      Reaches macs i bytes ∧ ∃ p, parseDiscoveryFrame bytes = .ok p ∧ p.code = codePads
        ∧ p.sessionId = x ∧ (s.dp.discovery.onFrame bytes).1 = .established ⟨p.eth.src, x⟩
  | _ => False

/-- No session of an index is given a number. -/
def Unassigned (x : UInt16) (i : ℕ) (d : Driver) (e : Event) : Prop :=
  ∀ s, d.slots[i]? = some s → ¬ e.Assigns x (d.slots.map (·.dp.ourMac)) i s

variable {macs : List MacAddr} {x : UInt16}

theorem act_of_reaches {now : ℕ} {draws : ℕ → Draws} {bytes : List UInt8}
    (h : Reaches macs i bytes) :
  (Event.frame now draws bytes).act md5 macs i s = s.handleL2 md5 now (draws i) bytes
  := by
  obtain h | h := h
  · rw [Event.act, h]
  · rw [Event.act, h]
    exact if_pos rfl

theorem act_of_not_reaches {now : ℕ} {draws : ℕ → Draws} {bytes : List UInt8}
    (h : ¬ Reaches macs i bytes) :
  (Event.frame now draws bytes).act md5 macs i s = s
  := by
  obtain ⟨hall, hone⟩ := not_or.mp h
  rw [Event.act]
  split
  · rename_i j hj
    apply if_neg
    rintro rfl
    exact hone hj
  · rename_i h
    exact absurd h hall
  · rfl

theorem Event.Frees.quiet (h : e.Frees md5 macs i s) (x : UInt16) :
  (e.act md5 macs i s).dp.Quiet x
  := by
  cases e with
  | frame now draws bytes =>
      rw [act_of_reaches h.1]
      exact h.2.quiet x
  | tick now draws => exact Slot.Frees.quiet h x
  | connect now draws => exact h.elim
  | lost => exact h.elim
  | packet j ip => exact h.elim

theorem Event.silent_act (h : ¬ e.Assigns x macs i s) :
  Slot.Silent x s (e.act md5 macs i s)
  := by
  cases e with
  | connect now draws => exact Slot.silent_connect x s now (draws i)
  | lost => exact Slot.silent_takeDown x s
  | frame now draws bytes =>
      by_cases hreach : Reaches macs i bytes
      · rw [act_of_reaches hreach]
        apply Slot.silent_handleL2
        intro mac haction
        have hmove := Discovery.onFrame_move s.dp.discovery bytes
        rw [haction] at hmove
        obtain ⟨p, hparse, hcode, hid, rfl⟩ := hmove.exists_pads
        exact h ⟨hreach, p, hparse, hcode, hid, haction⟩
      · rw [act_of_not_reaches hreach]
        apply Slot.Silent.refl
  | packet j ip =>
      rw [act]
      split
      · exact Slot.silent_packet x s ip
      · apply Slot.Silent.refl
  | tick now draws => exact Slot.silent_tick x s now (draws i)

/-- Nothing with a number is sent while no session of the index is given it. -/
theorem silent_of_run {es : List Event}
    (h : Run (Meeting (Unassigned x i) fun d e d' => d.step md5 e = some d') d es d')
    (hs : d.slots[i]? = some s) (hs' : d'.slots[i]? = some s') :
  Slot.Silent x s s'
  := by
  induction h generalizing s' with
  | nil =>
      obtain rfl := Option.some.inj (hs.symm.trans hs')
      apply Slot.Silent.refl
  | snoc _ hlast ih =>
      obtain ⟨hun, hstep⟩ := hlast
      obtain ⟨t, ht, rfl⟩ := slot_of_step hstep hs'
      exact (ih ht).trans (Event.silent_act (hun t ht))

/-- A tick leaves no session whose link is down without a wait, unless it went down in that tick
and had lasted. -/
theorem wait_of_tick (h : s.Steady) {now : ℕ} {draws : Draws}
    (hdown : (s.tick now draws).dp.core.Halted) :
  (s.tick now draws).redial.wait.isSome = true
    ∨ ¬ s.dp.core.Halted ∧ held s.upSince now = true
  := by
  obtain hwait | hheld := (Slot.applyPhase_halted _ now draws hdown).2
  · exact .inl hwait
  · right
    have hup : (s.ticked now draws).upSince = s.upSince := by
      rw [Slot.ticked, Slot.flush]
      dsimp only
      split
      · rw [Slot.flush, Slot.upSince_reset]
        rfl
      · rfl
    rw [hup] at hheld
    refine ⟨?_, hheld⟩
    intro hhalted
    rw [h.rested hhalted] at hheld
    cases hheld

/-- Without the timer, only the end of a session that lasted makes us dial. -/
theorem Event.dials_act (hconnect : ∀ now draws, e ≠ .connect now draws)
    (htick : ∀ now draws, e ≠ .tick now draws) :
  dials (e.act md5 macs i s).log = dials s.log
    ∨ ∃ now, (e.act md5 macs i s).log = .dial now :: .held now :: s.log
  := by
  cases e with
  | connect now draws => exact absurd rfl (hconnect now draws)
  | lost =>
      left
      rw [act, Slot.log_takeDown]
  | frame now draws bytes =>
      by_cases hreach : Reaches macs i bytes
      · rw [act_of_reaches hreach]
        obtain h | h := Slot.dials_applyPhase (s.received md5 bytes) now (draws i)
          (s.received md5 bytes).dp.phase
        · exact .inl h
        · exact .inr ⟨now, h⟩
      · rw [act_of_not_reaches hreach]
        exact .inl rfl
  | packet j ip =>
      left
      rw [act]
      split <;> rfl
  | tick now draws => exact absurd rfl (htick now draws)

end Driver

/-- The link of a session is down, or its discovery gave up. -/
def Slot.Down (s : Slot) : Prop :=
  s.dp.phase = .linkDown ∨ s.dp.phase = .dead

instance (s : Slot) : Decidable s.Down :=
  inferInstanceAs (Decidable (_ ∨ _))

namespace Driver

/-- One session, before its first channel. -/
def begun : Driver :=
  ⟨[.new PppoeDatapath.fresh], false⟩

theorem start_begun :
  begun.Start Observed.plainDigest
  := by
  refine ⟨rfl, ?_⟩
  intro s hs
  obtain rfl := List.mem_singleton.mp hs
  exact ⟨rfl, PppoeDatapath.reachable_fresh Observed.plainDigest []⟩

/-- The random source works, or it fails. -/
def drawn (random : Option UInt32) (_ : ℕ) : Draws :=
  ⟨random, random, random⟩

/-- An event for each frame of the concentrator. -/
def heard (now : ℕ) (op : Op) : Option Event :=
  match op with
  | .frame bytes => some (.frame now (drawn (some 7)) bytes)
  | _ => none

/-- So many ticks, one second after the other. -/
def ticks (since n : ℕ) : List Event :=
  (List.range n).map fun k => .tick (since + k * 1000000000) (drawn (some 7))

/-- The session is led to its lease. -/
def rising : List Event :=
  .connect 0 (drawn (some 7)) :: Tenant.leasing.filterMap (heard 500000000)

/-- Then nothing is heard, until the echoes are about to give up. -/
def lasting : List Event :=
  rising ++ ticks 1000000000 75

def lasted : Driver :=
  (execute (fun _ _ => True) (step Observed.plainDigest) begun lasting).getD begun

theorem run_lasted :
  Run (fun d e d' => d.step Observed.plainDigest e = some d') begun lasting lasted
  := by
  have hrun : execute (fun _ _ => True) (step Observed.plainDigest) begun lasting = some lasted := by
    decide +kernel
  exact (run_of_execute hrun).mono fun _ _ _ hstep => hstep.2

/-- After one more tick, for which the random source works or not. -/
def ended (random : Option UInt32) : Driver :=
  (lasted.step Observed.plainDigest (.tick 76000000000 (drawn random))).getD lasted

/-- The channel is lost, and on the next one neither the dial nor the release is possible.  The
session is still taken to be up, and the dial when the wait is over does not change that.
Discovery succeeds, but nothing more is heard until the concentrator ends the session. -/
def inheriting : List Event :=
  rising ++ [.lost, .connect 5000000000 (drawn none)] ++ ticks 6000000000 3
    ++ PppoeDatapath.dialed.filterMap (heard 8500000000) ++ ticks 9000000000 20
    ++ [.frame 29000000000 (drawn (some 7))
      (putEthHeader Dialog.host Dialog.concentrator etherTypeDiscovery ++ putPppoe codePadt 5 [])]

def inherited : Driver :=
  (execute (fun _ _ => True) (step Observed.plainDigest) begun inheriting).getD begun

theorem dropWhile_replicate (k : ℕ) {e : Entry} (he : e ≠ .tick) (a : List Entry) :
  (List.replicate k Entry.tick ++ e :: a).dropWhile (· = .tick) = e :: a
  := by
  induction k with
  | zero => simp [he]
  | succ k ih => simpa [List.replicate_succ] using ih

end Driver

end ZeroNat.Pppoe
