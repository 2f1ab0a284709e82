/-
This file compares a machine whose fuel is limited with one that executes the same container
without a limit. Fuel only cuts a run short: up to the limit both machines do the same.
-/

import RegisterMachine.Proofs.Machine.Upcoming

namespace RegisterMachine

/-- The line of a trace for an instruction that was fetched and decoded. -/
def TraceEvent.isInstruction : TraceEvent → Bool
  | instruction _ _ => true
  | halt _ | fault _ => false

namespace Machine

/-- The machine with an amount of fuel under a limit. -/
def refuel (machine : Machine) (left limit : UInt32) : Machine :=
  { machine with fuel := some left, fuelLimit := some limit }

end Machine

/-- Progress of a machine with other fuel. -/
def Progress.refuel (progress : Progress) (left limit : UInt32) : Progress :=
  { progress with machine := progress.machine.refuel left limit }

namespace Machine

/-- An instruction does the same with any amount of fuel. -/
theorem execute_refuel (machine : Machine) (left limit : UInt32) (sink : Sink)
    (instruction : Instruction) :
    (machine.refuel left limit).execute sink instruction =
      { machine.execute sink instruction with
        machine := (machine.execute sink instruction).machine.refuel left limit } := by
  let books : Bookkeeping :=
    { machine.bookkeeping with fuel := some left, fuelLimit := some limit }
  obtain ⟨status, fault, codeEnd, _, _⟩ := machine.execute_books sink instruction
  change (machine.keeping books).execute sink instruction = _
  rw [execute_keeping, Outcome.keeping, keeping, refuel, status, fault, codeEnd]
  rfl

/-- As long as fuel is left, an attempt only takes a unit of it. -/
theorem attempt_refuel {machine : Machine} (unlimited : machine.fuel = none) (sink : Sink)
    {left : UInt32} (positive : left ≠ 0) (limit : UInt32) :
    (machine.refuel left limit).attempt sink = (machine.attempt sink).refuel (left - 1) limit := by
  have noneLeft : machine.fuel ≠ some 0 := by
    rw [unlimited]
    nofun
  have someLeft : (machine.refuel left limit).fuel ≠ some 0 := fun none =>
    positive (Option.some.inj none)
  have spent : (machine.refuel left limit).spent = machine.refuel (left - 1) limit := rfl
  have next : (machine.refuel (left - 1) limit).nextInstruction = machine.nextInstruction := rfl
  have fetched : (machine.refuel (left - 1) limit).fetched =
      machine.fetched.refuel (left - 1) limit := rfl
  unfold attempt
  rw [consumeFuel_eq machine noneLeft, spent_unlimited unlimited, consumeFuel_eq _ someLeft, spent]
  dsimp only
  rw [fetch_eq, fetch_eq, next, fetched]
  cases machine.nextInstruction with
  | error error => rfl
  | ok instruction =>
      dsimp only
      rw [execute_refuel]
      cases (machine.fetched.execute sink instruction).result with
      | ok value => rfl
      | error reason => cases reason <;> rfl

section Simulation

variable {machine : Machine} {sink : Sink}

theorem step_refuel (coherent : Coherent machine) (noLimit : machine.fuelLimit = none)
    (running : machine.status = .running) {left : UInt32} (positive : left ≠ 0)
    (limit : UInt32) :
    (machine.refuel left limit).step sink = (machine.step sink).refuel (left - 1) limit := by
  have isRunning := coherent.isRunning_iff.mpr running
  rw [step_running machine sink isRunning,
    step_running (machine.refuel left limit) sink ⟨isRunning.status, isRunning.fault⟩]
  exact attempt_refuel (coherent.unlimited noLimit) sink positive limit

/-- Up to its limit a fuelled machine does what the machine without a limit does. -/
theorem walk_refuel (coherent : Coherent machine) (noLimit : machine.fuelLimit = none)
    {count : Nat} {left : UInt32} (enough : count ≤ left.toNat)
    (running : ∀ earlier, earlier < count → (machine.walk sink earlier).machine.status = .running)
    (limit : UInt32) :
    (machine.refuel left limit).walk sink count =
      (machine.walk sink count).refuel (left - UInt32.ofNat count) limit := by
  induction count generalizing machine sink left with
  | zero =>
      have whole : left - UInt32.ofNat 0 = left := UInt32.sub_zero left
      rw [whole]
      rfl
  | succ count inductionHypothesis =>
      have positive : left ≠ 0 := by
        rintro rfl
        cases enough
      have fewer : (left - 1).toNat = left.toNat - 1 :=
        UInt32.toNat_sub_of_le _ _ (UInt32.le_iff_toNat_le.mpr (by change 1 ≤ left.toNat; omega))
      have later : left - 1 - UInt32.ofNat count = left - UInt32.ofNat (count + 1) := by
        rw [UInt32.ofNat_add]
        grind
      have first : (machine.refuel left limit).step sink =
          (machine.step sink).refuel (left - 1) limit :=
        step_refuel coherent noLimit (running 0 (Nat.succ_pos count)) positive limit
      have noLimitLater : (machine.step sink).machine.fuelLimit = none :=
        (machine.step_frame sink).fuelLimit.trans noLimit
      have enoughLater : count ≤ (left - 1).toNat := by omega
      have rest := inductionHypothesis (step_coherent coherent sink) noLimitLater enoughLater
        fun earlier before => running (earlier + 1) (Nat.succ_lt_succ before)
      rw [later] at rest
      simp only [walk, first]
      change (((machine.step sink).machine.refuel (left - 1) limit).walk (machine.step sink).sink
        count).following (machine.step sink).trace (machine.step sink).log = _
      rw [rest]
      rfl

/-- Without fuel a running machine stops where it is. -/
theorem step_exhausted (running : machine.IsRunning) (limit : UInt32) :
    (machine.refuel 0 limit).step sink =
      (machine.refuel 0 limit).stop sink machine.pc [] [] (.raised (.fuelExhausted limit)) := by
  rw [step_running (machine.refuel 0 limit) sink ⟨running.status, running.fault⟩, attempt,
    consumeFuel_exhausted (machine.refuel 0 limit) limit rfl rfl]
  rfl

/-- A walk that leaves the machine running shows an instruction for each step. -/
theorem walk_shows (coherent : Coherent machine) {count : Nat}
    (running : ∀ earlier, earlier ≤ count →
      (machine.walk sink earlier).machine.status = .running) :
    (machine.walk sink count).trace.length = count ∧
      ∀ event ∈ (machine.walk sink count).trace, event.isInstruction := by
  induction count generalizing machine sink with
  | zero => exact ⟨rfl, by simp [walk]⟩
  | succ count inductionHypothesis =>
      have after : (machine.step sink).machine.status = .running := running 1 (by omega)
      obtain ⟨instruction, _, first⟩ := step_shows coherent (running 0 (Nat.zero_le _)) after
      obtain ⟨length, shown⟩ := inductionHypothesis (step_coherent coherent sink)
        fun earlier before => running (earlier + 1) (Nat.succ_le_succ before)
      simp only [walk, Progress.following, first, List.singleton_append]
      refine ⟨by rw [List.length_cons, length], ?_⟩
      intro event member
      rcases List.mem_cons.mp member with same | later
      · rw [same]
        rfl
      · exact shown event later

end Simulation

/-- What a limit on the fuel does to a run. If the unlimited machine stops within the limit, both
runs are the same but for the fuel. Otherwise the limited machine executes as many instructions as
the limit says and stops for want of fuel where the unlimited machine goes on. -/
structure Truncates (unlimited limited : Machine) (limit : UInt32) (sink : Sink) : Prop where
  enough : ∀ count, count ≤ limit.toNat → unlimited.StopsAt sink count →
    ∀ record steps, count ≤ steps →
      ∃ ended, unlimited.run record steps sink = some ended ∧
        limited.run record steps sink = some (ended.refuel (limit - UInt32.ofNat count) limit)
  exhausted : (∀ count, count ≤ limit.toNat → ¬unlimited.StopsAt sink count) →
    ∀ record steps, limit.toNat < steps →
      let before := unlimited.walk sink limit.toNat
      let fault : Fault := ⟨.fuelExhausted limit, before.machine.pc⟩
      limited.run record steps sink = some {
        machine := { before.machine.refuel 0 limit with
          status := .softError, fault := some fault }
        sink := before.sink
        trace := if record then before.trace ++ [.fault fault] else []
        log := before.log
        result := .error (.raised fault) } ∧
      before.trace.length = limit.toNat ∧ ∀ event ∈ before.trace, event.isInstruction
  terminates : ∀ record steps, limit.toNat < steps → (limited.run record steps sink).isSome

section Truncation

variable {machine : Machine} {sink : Sink} {limit : UInt32}

theorem refuel_coherent (coherent : Coherent machine) (left limit : UInt32) :
    Coherent (machine.refuel left limit) :=
  ⟨⟨coherent.faulted, coherent.fatal⟩, Iff.rfl⟩

theorem StopsAt.refuel (coherent : Coherent machine) (noLimit : machine.fuelLimit = none)
    {count : Nat} (within : count ≤ limit.toNat) (stops : machine.StopsAt sink count) :
    (machine.refuel limit limit).StopsAt sink count := by
  have same (earlier : Nat) (before : earlier ≤ count) :
      ((machine.refuel limit limit).walk sink earlier).machine.status =
        (machine.walk sink earlier).machine.status := by
    rw [walk_refuel coherent noLimit (by omega)
      fun former first => stops.running former (by omega)]
    rfl
  constructor
  · intro earlier before
    rw [same earlier (by omega)]
    exact stops.running earlier before
  · rw [same count (Nat.le_refl _)]
    exact stops.stopped

theorem run_enough (coherent : Coherent machine) (noLimit : machine.fuelLimit = none)
    {count steps : Nat} (within : count ≤ limit.toNat) (stops : machine.StopsAt sink count)
    (record : Bool) (enough : count ≤ steps) :
    ∃ ended, machine.run record steps sink = some ended ∧
      (machine.refuel limit limit).run record steps sink =
        some (ended.refuel (limit - UInt32.ofNat count) limit) := by
  refine ⟨_, run_ends coherent stops enough record, ?_⟩
  rw [run_ends (refuel_coherent coherent limit limit) (stops.refuel coherent noLimit within) enough,
    walk_refuel coherent noLimit within stops.running]
  rfl

/-- The step after the last unit of fuel stops the machine. -/
theorem walk_exhausted (coherent : Coherent machine) (noLimit : machine.fuelLimit = none)
    (running : ∀ earlier, earlier ≤ limit.toNat →
      (machine.walk sink earlier).machine.status = .running) :
    let before := machine.walk sink limit.toNat
    let fault : Fault := ⟨.fuelExhausted limit, before.machine.pc⟩
    (machine.refuel limit limit).walk sink (limit.toNat + 1) = {
      machine := { before.machine.refuel 0 limit with status := .softError, fault := some fault }
      sink := before.sink
      trace := before.trace ++ [.fault fault]
      log := before.log
      result := .error (.raised fault) } := by
  intro before fault
  have last : (before.machine.refuel 0 limit).step before.sink = _ :=
    step_exhausted ((walk_coherent coherent sink limit.toNat).isRunning_iff.mpr
      (running limit.toNat (Nat.le_refl _))) limit
  have none : limit - UInt32.ofNat limit.toNat = 0 := by
    rw [UInt32.ofNat_toNat, UInt32.sub_self]
  rw [walk_succ, walk_refuel coherent noLimit (Nat.le_refl _)
    fun earlier first => running earlier (Nat.le_of_lt first), none]
  change (⟨((before.machine.refuel 0 limit).step before.sink).machine,
    ((before.machine.refuel 0 limit).step before.sink).sink,
    before.trace ++ ((before.machine.refuel 0 limit).step before.sink).trace,
    before.log ++ ((before.machine.refuel 0 limit).step before.sink).log,
    ((before.machine.refuel 0 limit).step before.sink).machine.verdict⟩ : Progress) = _
  rw [last]
  simp only [stop, fail, List.append_nil, List.nil_append]
  rfl

theorem refuel_truncates (coherent : Coherent machine) (noLimit : machine.fuelLimit = none) :
    Truncates machine (machine.refuel limit limit) limit sink := by
  have truncated (goesOn : ∀ count, count ≤ limit.toNat → ¬machine.StopsAt sink count)
      (record : Bool) {steps : Nat} (enough : limit.toNat < steps) :
      (machine.refuel limit limit).run record steps sink =
        some (((machine.refuel limit limit).walk sink (limit.toNat + 1)).ended record) := by
    have running := running_of_notStopped goesOn
    have last := walk_exhausted coherent noLimit running
    have stops : (machine.refuel limit limit).StopsAt sink (limit.toNat + 1) := by
      constructor
      · intro earlier before
        rw [walk_refuel coherent noLimit (by omega)
          fun former first => running former (by omega)]
        exact running earlier (by omega)
      · rw [last]
        nofun
    exact run_ends (refuel_coherent coherent limit limit) stops enough record
  constructor
  · intro count within stops record steps enough
    exact run_enough coherent noLimit within stops record enough
  · intro goesOn record steps enough before fault
    have running := running_of_notStopped goesOn
    refine ⟨?_, walk_shows coherent running⟩
    rw [truncated goesOn record enough, walk_exhausted coherent noLimit running]
    rfl
  · intro record steps enough
    by_cases stops : ∃ count, count ≤ limit.toNat ∧ machine.StopsAt sink count
    · obtain ⟨count, within, stops⟩ := stops
      obtain ⟨ended, _, ends⟩ := run_enough coherent noLimit within stops record
        (Nat.le_of_lt (Nat.lt_of_le_of_lt within enough))
      rw [ends]
      rfl
    · have goesOn (count : Nat) (within : count ≤ limit.toNat) : ¬machine.StopsAt sink count :=
        fun stopped => stops ⟨count, within, stopped⟩
      rw [truncated goesOn record enough]
      rfl

end Truncation

/-- The machine has just loaded a file, and its host gave it a limit on the fuel or none. -/
def Loaded (limit : Option UInt32) (bytes : List UInt8) (machine : Machine) : Prop :=
  ∃ fresh : Machine, fresh.fuelLimit = limit ∧ (fresh.load bytes).value = .ok machine

theorem Loaded.started {limit : Option UInt32} {bytes : List UInt8} {machine : Machine}
    (loaded : Loaded limit bytes machine) :
    ∃ container, (Container.ofLoadable bytes).value = .ok container ∧
      machine = (empty limit).started container := by
  obtain ⟨fresh, rfl, loads⟩ := loaded
  rw [load_eq] at loads
  cases accepted : (Container.ofLoadable bytes).value with
  | error error =>
      rw [accepted] at loads
      cases loads
  | ok container =>
      rw [accepted] at loads
      exact ⟨container, rfl, (Except.ok.inj loads).symm⟩

/-- Machines that loaded the same file differ only in their fuel. -/
theorem Loaded.refuel {bytes : List UInt8} {limit : UInt32} {unlimited limited : Machine}
    (free : Loaded none bytes unlimited) (fuelled : Loaded (some limit) bytes limited) :
    limited = unlimited.refuel limit limit := by
  obtain ⟨container, accepted, rfl⟩ := free.started
  obtain ⟨same, acceptedToo, rfl⟩ := fuelled.started
  rw [accepted] at acceptedToo
  cases acceptedToo
  rfl

/-- A limit on the fuel only truncates a run. Two limits that both suffice give the same run. -/
theorem fuel_truncates {bytes : List UInt8} {limit : UInt32} {unlimited limited : Machine}
    (free : Loaded none bytes unlimited) (fuelled : Loaded (some limit) bytes limited)
    (sink : Sink) :
    Truncates unlimited limited limit sink ∧
      ∀ otherLimit other, Loaded (some otherLimit) bytes other →
        ∀ count, count ≤ limit.toNat → count ≤ otherLimit.toNat →
          unlimited.StopsAt sink count → ∀ record steps, count ≤ steps →
            ∃ ended : Progress,
              limited.run record steps sink =
                some (ended.refuel (limit - UInt32.ofNat count) limit) ∧
              other.run record steps sink =
                some (ended.refuel (otherLimit - UInt32.ofNat count) otherLimit) := by
  have coherent : Coherent unlimited := by
    obtain ⟨container, _, rfl⟩ := free.started
    exact started_coherent _ container
  have noLimit : unlimited.fuelLimit = none := by
    obtain ⟨container, _, rfl⟩ := free.started
    rfl
  rw [free.refuel fuelled]
  refine ⟨refuel_truncates coherent noLimit, ?_⟩
  intro otherLimit other otherLoaded count within otherWithin stops record steps enough
  obtain ⟨ended, whole, cut⟩ := run_enough coherent noLimit within stops record enough
  obtain ⟨otherEnded, same, otherCut⟩ :=
    run_enough coherent noLimit otherWithin stops record enough
  rw [whole] at same
  cases same
  rw [free.refuel otherLoaded]
  exact ⟨ended, cut, otherCut⟩

/-- One unit of fuel is just enough for a program of one halt instruction, and without any fuel
not even that is executed. -/
theorem fuel_truncates_halt :
    let bytes := (Container.ofSections ⟨[6, 0, 0, 0, 0, 0, 0, 0], [], []⟩ 0).toBytes
    ∃ unlimited one zero,
      Loaded none bytes unlimited ∧ Loaded (some 1) bytes one ∧ Loaded (some 0) bytes zero ∧
      Truncates unlimited one 1 .unlimited ∧ Truncates unlimited zero 0 .unlimited ∧
      (∃ ended : Progress, unlimited.run false 1 .unlimited = some ended ∧
        one.run false 1 .unlimited = some (ended.refuel 0 1)) ∧
      (zero.run false 1 .unlimited).map Progress.result =
        some (.error (.raised ⟨.fuelExhausted 0, 0⟩)) := by
  intro bytes
  have accepted : (Container.ofLoadable bytes).value =
      .ok (Container.ofSections ⟨[6, 0, 0, 0, 0, 0, 0, 0], [], []⟩ 0) := by
    decide +kernel
  have loaded (limit : Option UInt32) : Loaded limit bytes ((empty limit).started
      (Container.ofSections ⟨[6, 0, 0, 0, 0, 0, 0, 0], [], []⟩ 0)) :=
    ⟨empty limit, rfl, by rw [load_eq, accepted]⟩
  have goesOn : ((empty none).started
      (Container.ofSections ⟨[6, 0, 0, 0, 0, 0, 0, 0], [], []⟩ 0)).status = .running := rfl
  have stops : ((empty none).started
      (Container.ofSections ⟨[6, 0, 0, 0, 0, 0, 0, 0], [], []⟩ 0)).StopsAt .unlimited 1 := by
    constructor
    · intro earlier before
      obtain rfl : earlier = 0 := by omega
      exact goesOn
    · decide +kernel
  obtain ⟨one, _⟩ := fuel_truncates (loaded none) (loaded (some 1)) .unlimited
  obtain ⟨zero, _⟩ := fuel_truncates (loaded none) (loaded (some 0)) .unlimited
  have exhausted := zero.exhausted
    (by
      rintro count within ⟨_, stopped⟩
      obtain rfl : count = 0 := Nat.le_zero.mp within
      exact stopped goesOn)
    false 1 (by decide)
  refine ⟨_, _, _, loaded none, loaded (some 1), loaded (some 0), one, zero,
    one.enough 1 (Nat.le_refl _) stops false 1 (Nat.le_refl _), ?_⟩
  rw [exhausted.1]
  rfl

end Machine

end RegisterMachine
