/-
Grams from the database to the motor: a JSON number becomes an `int`
(main.c, schedule_runner.c), a quotient of it a number of revolutions,
and those a `uint32_t` of steps (dispenser.c).

Only a lower bound is checked on the way. `grams_exact_iff` says for
which numbers both conversions are defined and the steps are those of
the grams, with `float` taken as exact.
-/
import SitNChow.Dispenser
import SitNChow.Feeder.Model
import SitNChow.Schedule.Parse

namespace SitNChow

open Kit

variable {g : Nat} {rpm : UInt32}

/-- `parse_schedules` keeps an entry with the number `v` for its grams, or
`handle_pending_command` finds it in a command, and goes on with these
grams. -/
inductive TakenAs (v : Rat) (grams : Int) : Prop
  | schedule (deviceId name : CString) (entry : CJson)
      (number : entry.getObjectItem (cstr "grams") = some (.number v))
      (kept : (fillSlot deviceId name entry).2 = true)
      (eq : (fillSlot deviceId name entry).1.grams = grams)
  | command (cmd : CJson) (c : Command)
      (number : cmd.getObjectItem (cstr "grams") = some (.number v))
      (found : pendingCommand cmd = some c) (eq : c.grams = grams)

/-- Both take the whole grams, whatever they are. -/
theorem TakenAs.eq_toInt {v : Rat} {grams : Int} (h : TakenAs v grams) :
    grams = CJson.toInt v := by
  cases h with
  | schedule deviceId name entry number kept eq =>
      obtain ⟨haccepted, hslot⟩ := fillSlot_spec deviceId name entry
      rw [← eq, hslot (haccepted ▸ kept)]
      simp [keptSchedule, entryGrams, number]
  | command cmd c number found eq =>
      unfold pendingCommand at found
      rw [← eq]
      split at found
      · split at found
        · rw [← Option.some.inj found]
          simp [number]
        · cases found
      · cases found

/-- The number `v` gets through both conversions, and is dispensed in as
many pulses as its whole grams make. -/
def Exact (g : Nat) (rpm : UInt32) (v : Rat) : Prop :=
  ∃ grams periods, toInt32 v = some grams
    ∧ dispenserRun .exact g rpm grams = some periods
    ∧ (periods.length : Int) = max 0 (grams * 1600 / (4 * g))

/-- Without rounding the steps are those of the grams. -/
theorem gramSteps_exact_eq (g : Nat) (grams : Int) :
    (gramSteps .exact g grams.toNat : Int) = max 0 (grams * 1600 / (4 * g)) := by
  rw [gramSteps_exact]
  rcases Int.le_total grams 0 with hle | hle
  · have hneg : grams * 1600 / (4 * (g : Int)) ≤ 0 := by
      rcases Nat.eq_zero_or_pos g with rfl | hg
      · simp
      · exact Int.ediv_nonpos_of_nonpos_of_neg (by omega) (by omega)
    rw [Int.toNat_of_nonpos hle, max_eq_left hneg]
    simp
  · obtain ⟨n, rfl⟩ := Int.eq_ofNat_of_zero_le hle
    have hpos : 0 ≤ (n : Int) * 1600 / (4 * (g : Int)) :=
      Int.ediv_nonneg (by omega) (by omega)
    rw [Int.toNat_natCast, max_eq_right hpos]
    push_cast
    rfl

/-- At RPM 0 the motor does not turn at all. -/
theorem exact_zero_iff (grams : Int) :
    (∃ periods, dispenserRun .exact g 0 grams = some periods
        ∧ (periods.length : Int) = max 0 (grams * 1600 / (4 * g)))
      ↔ grams * 1600 / (4 * g) < 1 := by
  have hnone : dispenserRun .exact g 0 grams = some [] := by
    unfold dispenserRun stepperRotate
    split
    · rfl
    · exact if_pos (Or.inl rfl)
  constructor
  · rintro ⟨periods, hrun, hlen⟩
    cases hnone.symm.trans hrun
    rw [List.length_nil] at hlen
    omega
  · intro h
    refine ⟨[], hnone, ?_⟩
    rw [List.length_nil]
    omega

/-- At any other the steps have to fit 32 bits. -/
theorem exact_ne_zero_iff (hg : 1 ≤ g) (hrpm : rpm ≠ 0) (grams : Int) :
    (∃ periods, dispenserRun .exact g rpm grams = some periods
        ∧ (periods.length : Int) = max 0 (grams * 1600 / (4 * g)))
      ↔ grams * 1600 / (4 * g) < 4294967296 := by
  have hsteps := gramSteps_exact_eq g grams
  constructor
  · rintro ⟨periods, hrun, -⟩
    rcases dispenserRun_cases hg hrun with ⟨-, hzero | hgrams⟩ | ⟨-, -, hlt, -⟩
    · exact absurd hzero hrpm
    · rw [gramSteps_nonpos .exact g hgrams] at hsteps
      omega
    · simp only [UInt32.size] at hlt
      omega
  · intro hlt
    have hsome : ∃ periods, dispenserRun .exact g rpm grams = some periods := by
      by_cases hgrams : 0 < grams
      · rw [dispenserRun_of_pos .exact hg hrpm hgrams, if_pos]
        · exact ⟨_, rfl⟩
        · simp only [UInt32.size]
          omega
      · unfold dispenserRun
        rw [if_pos (by omega)]
        exact ⟨_, rfl⟩
    obtain ⟨periods, hrun⟩ := hsome
    refine ⟨periods, hrun, ?_⟩
    rw [length_dispenserRun hg hrun, if_neg hrpm]
    exact hsteps

/-- A JSON number is dispensed exactly, in grams cut to a whole number,
exactly when that number is an `int` and its steps fit 32 bits; these
are the grams that schedules and commands take it for. However the
floats are rounded, the pulses of the call are the periods requested, and
more grams are never fewer of them. -/
theorem grams_exact_iff (hg : 1 ≤ g) (rpm : UInt32) (v : Rat) :
    (Exact g rpm v
        ↔ -2147483648 ≤ CJson.toInt v ∧ CJson.toInt v ≤ 2147483647
          ∧ CJson.toInt v * 1600 / (4 * g) < if rpm = 0 then 1 else 4294967296)
      ∧ (∀ grams, TakenAs v grams → grams = CJson.toInt v)
      ∧ (∀ fl grams periods finish m n err, dispenserRun fl g rpm grams = some periods →
        (Run.after ⟨g, rpm.toNat, finish, fl⟩ grams m n).pc = .done err →
        (Run.after ⟨g, rpm.toNat, finish, fl⟩ grams m n).pulses = periods.length)
      ∧ ∀ fl grams grams' periods periods', grams ≤ grams' →
        dispenserRun fl g rpm grams = some periods →
        dispenserRun fl g rpm grams' = some periods' →
        periods.length ≤ periods'.length := by
  refine ⟨?_, fun grams htaken => htaken.eq_toInt, ?_, ?_⟩
  · have hconv : ∀ grams, toInt32 v = some grams ↔ CJson.toInt v = grams
        ∧ -2147483648 ≤ CJson.toInt v ∧ CJson.toInt v ≤ 2147483647 := by
      intro grams
      unfold toInt32
      dsimp only
      split
      · next h => simp [h]
      · next h => simp [h]
    have hrun : (∃ periods, dispenserRun .exact g rpm (CJson.toInt v) = some periods
          ∧ (periods.length : Int) = max 0 (CJson.toInt v * 1600 / (4 * g)))
        ↔ CJson.toInt v * 1600 / (4 * g) < if rpm = 0 then 1 else 4294967296 := by
      by_cases hrpm : rpm = 0
      · rw [hrpm, if_pos rfl]
        exact exact_zero_iff _
      · rw [if_neg hrpm]
        exact exact_ne_zero_iff hg hrpm _
    rw [← hrun]
    constructor
    · rintro ⟨grams, periods, hint, hdisp, hlen⟩
      obtain ⟨rfl, hlo, hhi⟩ := (hconv grams).mp hint
      exact ⟨hlo, hhi, periods, hdisp, hlen⟩
    · rintro ⟨hlo, hhi, periods, hdisp, hlen⟩
      exact ⟨_, periods, (hconv _).mpr ⟨rfl, hlo, hhi⟩, hdisp, hlen⟩
  · intro fl grams periods finish m n err hdisp hdone
    have hok := (after_ok ⟨g, rpm.toNat, finish, fl⟩ grams m n).1
    rw [hdone] at hok
    rcases hok.returned with ⟨-, hgrams, hpulses⟩ | ⟨-, hgrams, hpulses⟩
    · rw [length_eq_dispensePulses hg finish hgrams hdisp]
      exact hpulses
    · rw [hpulses, length_dispenserRun hg hdisp, gramSteps_nonpos fl g hgrams, ite_self]
  · intro fl grams grams' periods periods' hle hdisp hdisp'
    have hmono := gramSteps_mono fl g (Int.toNat_le_toNat hle)
    rw [length_dispenserRun hg hdisp, length_dispenserRun hg hdisp']
    split <;> omega

/-- 100 g at 10 g a revolution. -/
theorem grams_exact_100 : Exact 10 20 100 :=
  (grams_exact_iff (g := 10) (by decide) 20 100).1.mpr (by decide +kernel)

/-- An entry for 2000000000 g is kept, and its steps do not fit. -/
theorem grams_inexact :
    TakenAs 2000000000 2000000000 ∧ dispenserRun .exact 10 20 2000000000 = none
      ∧ ¬ Exact 10 20 2000000000 := by
  have hnone : dispenserRun .exact 10 20 2000000000 = none := by
    rw [dispenserRun_of_pos .exact (by decide) (by decide) (by decide), gramSteps_exact]
    exact if_neg (by decide)
  refine ⟨?_, hnone, ?_⟩
  · refine .schedule (cstr "SIT") (cstr "weekly") (.object [(cstr "time",
      .string (cstr "07:30")), (cstr "grams", .number 2000000000),
      (cstr "devices", .object [(cstr "SIT", .bool true)])]) rfl ?_ ?_
    · decide +kernel
    · decide +kernel
  · rintro ⟨grams, periods, hint, hdisp, -⟩
    have hgrams : grams = 2000000000 := by
      have : toInt32 2000000000 = some 2000000000 := by decide +kernel
      exact Option.some.inj (hint.symm.trans this)
    rw [hgrams, hnone] at hdisp
    cases hdisp

end SitNChow
