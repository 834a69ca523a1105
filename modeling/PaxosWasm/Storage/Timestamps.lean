import PaxosWasm.Library.Decimals
import PaxosWasm.Storage.Runs

/-!
# Snapshots in the order of time

A snapshot is named after the time it was taken, as `chrono` prints it: fields of fixed width, a
fraction of the second with as few groups of three digits as it needs, and the offset of UTC. Names
of different length are compared at the end of the shorter fraction, where the `+` of the offset
comes before the dot and before every digit. So the names are in the order of the times, a listing
gives the oldest snapshot first, and that is the one the rotation removes.

A time is a date and a time of day within their ranges, and its instant is the number of nanoseconds it
comes to. The order of the printed forms is shown field by field, from the year down to the fraction,
where forms of different length meet. How `chrono` prints is a hypothesis (`printed` satisfies it), and
the last section carries the order of names over to the listing and to the rotation of a directory.
-/

namespace PaxosWasm

open Library

/-! ## The calendar

The order of times is that of their instants. The lemmas compare dates with the days they count. -/

def isLeapYear (year : Nat) : Bool :=
  decide (year % 4 = 0 ∧ (year % 100 ≠ 0 ∨ year % 400 = 0))

/-- The days of a month, counted from `0` for January. -/
def daysInMonth (year : Nat) : Nat → Nat
  | 1 => if isLeapYear year then 29 else 28
  | 3 | 5 | 8 | 10 => 30
  | _ => 31

open Finset in
def daysInYear (year : Nat) : Nat := ∑ month ∈ range 12, daysInMonth year month

/-- `DateTime<Utc>` in the years that are printed with four digits. -/
structure DateTime where
  year : Nat
  month : Nat
  day : Nat
  hour : Nat
  minute : Nat
  second : Nat
  nanosecond : Nat
  year_lt : year < 10000
  month_range : 1 ≤ month ∧ month ≤ 12
  day_range : 1 ≤ day ∧ day ≤ daysInMonth year (month - 1)
  hour_lt : hour < 24
  minute_lt : minute < 60
  second_lt : second < 60
  nanosecond_lt : nanosecond < 10 ^ 9

namespace DateTime

open Finset in
/-- The day in the year, from `0`. -/
def ordinal (t : DateTime) : Nat := ∑ m ∈ range (t.month - 1), daysInMonth t.year m + (t.day - 1)

open Finset in
/-- The days since the start of year 0. -/
def days (t : DateTime) : Nat := ∑ y ∈ range t.year, daysInYear y + t.ordinal

/-- The hours since the start of year 0. -/
def hours (t : DateTime) : Nat := t.days * 24 + t.hour

def minutes (t : DateTime) : Nat := t.hours * 60 + t.minute

def seconds (t : DateTime) : Nat := t.minutes * 60 + t.second

/-- **The instant**: the nanoseconds since the start of year 0. -/
def nanos (t : DateTime) : Nat := t.seconds * 10 ^ 9 + t.nanosecond

theorem day_lt (t : DateTime) : t.day - 1 < daysInMonth t.year (t.month - 1) := by
  obtain ⟨hpos, hle⟩ := t.day_range
  omega

open Finset in
theorem ordinal_lt (t : DateTime) : t.ordinal < daysInYear t.year := by
  have hmonth : t.month - 1 < 12 := by
    obtain ⟨hpos, hle⟩ := t.month_range
    omega
  have hend : ∑ m ∈ range (t.month - 1 + 1), daysInMonth t.year m ≤ daysInYear t.year :=
    sum_le_sum_of_subset (range_subset_range.mpr hmonth)
  rw [sum_range_succ] at hend
  have hday := t.day_lt
  unfold ordinal
  omega

variable {t t' : DateTime}

theorem month_day_lt (hyear : t.year = t'.year) (h : t.ordinal < t'.ordinal) :
    t.month < t'.month ∨ t.month = t'.month ∧ t.day < t'.day := by
  have hlt := t.day_lt
  rw [ordinal, ordinal, hyear] at h
  rw [hyear] at hlt
  have hfields := (sum_add_lt_sum_add_iff hlt t'.day_lt).mp h
  have hmonths := t.month_range
  have hmonths' := t'.month_range
  have hdays := t.day_range
  omega

theorem month_day_eq (hyear : t.year = t'.year) (h : t.ordinal = t'.ordinal) :
    t.month = t'.month ∧ t.day = t'.day := by
  have hlt := t.day_lt
  rw [ordinal, ordinal, hyear] at h
  rw [hyear] at hlt
  have hfields := sum_add_eq_sum_add hlt t'.day_lt h
  have hmonths := t.month_range
  have hmonths' := t'.month_range
  have hdays := t.day_range
  have hdays' := t'.day_range
  omega

theorem month_lt (t : DateTime) : t.month < 10 ^ 2 :=
  lt_of_le_of_lt t.month_range.2 (by decide)

theorem daysInMonth_le (year month : Nat) : daysInMonth year month ≤ 31 := by
  unfold daysInMonth
  split
  · split <;> decide
  all_goals decide

theorem day_lt_hundred (t : DateTime) : t.day < 10 ^ 2 :=
  lt_of_le_of_lt (le_trans t.day_range.2 (daysInMonth_le ..)) (by decide)

end DateTime

/-! ## The printed form

Every number has a fixed width but the fraction, which leaves out groups of three zeros. Behind it comes
the sign of the offset, which sorts before every digit. -/

/-- How many of the nine digits of a fraction are left out: a multiple of three, all of them zero. -/
def digitsLeft (nanosecond : Nat) : Nat :=
  if nanosecond % 10 ^ 6 = 0 then 6 else if nanosecond % 10 ^ 3 = 0 then 3 else 0

/-- The fraction of the second: nothing, or the dot with 3, 6 or 9 digits. -/
def fraction (nanosecond : Nat) : List Char :=
  if nanosecond = 0 then []
  else '.' :: decimal (9 - digitsLeft nanosecond) (nanosecond / 10 ^ digitsLeft nanosecond)

namespace DateTime

def date (t : DateTime) : List Char :=
  decimal 4 t.year ++ '-' :: decimal 2 t.month ++ '-' :: decimal 2 t.day

def clock (t : DateTime) : List Char :=
  t.date ++ 'T' :: decimal 2 t.hour ++ ':' :: decimal 2 t.minute ++ ':' :: decimal 2 t.second

/-- `2026-03-01T12:05:00.250+00:00`. -/
def printed (t : DateTime) : List Char :=
  t.clock ++ fraction t.nanosecond ++ ['+', '0', '0', ':', '0', '0']

end DateTime

theorem digitsLeft_spec (n : Nat) :
    digitsLeft n ≤ 6 ∧ n % 10 ^ digitsLeft n = 0 := by
  unfold digitsLeft
  split
  · next h => exact ⟨le_refl _, h⟩
  · split
    · next h => exact ⟨by decide, h⟩
    · exact ⟨Nat.zero_le _, Nat.mod_one _⟩

/-- A digit comes after the sign of the offset. -/
theorem below_digit {width n : Nat} (hpos : 0 < width) (rest more : List Char) :
    Below ('+' :: rest) (decimal width n ++ more) := by
  obtain ⟨w, rfl⟩ := Nat.exists_eq_add_of_lt hpos
  rw [Nat.zero_add]
  have hdigit : ∀ c ∈ decimal (w + 1) n, '0' ≤ c := fun c hc => (mem_decimal hc).1
  rw [decimal] at hdigit ⊢
  exact .head (lt_of_lt_of_le (by decide) (hdigit _ (List.mem_cons_self ..))) _ _

/-- **Fractions of different length**, with the offset behind them, are in the order of the numbers. -/
theorem below_fraction {m n : Nat} (hlt : m < n) (hn : n < 10 ^ 9) (rest : List Char) :
    Below (fraction m ++ '+' :: rest) (fraction n ++ '+' :: rest) := by
  obtain ⟨hu, -⟩ := digitsLeft_spec m
  obtain ⟨hv, hn0⟩ := digitsLeft_spec n
  rw [fraction, fraction, if_neg (Nat.ne_of_gt (Nat.zero_lt_of_lt hlt))]
  generalize digitsLeft m = u at *
  generalize digitsLeft n = v at *
  split
  · exact .head (by decide) _ _
  · rw [List.cons_append, List.cons_append]
    refine .tail '.' ?_
    -- both have the digits before place `w`
    obtain ⟨w, hw, huw, hvw, hmax⟩ : ∃ w ≤ 6, u ≤ w ∧ v ≤ w ∧ (w = u ∨ w = v) :=
      ⟨max u v, by lia, by lia, by lia, by lia⟩
    have hcut : ∀ {k p : Nat}, k ≤ w → decimal (9 - k) (p / 10 ^ k) =
        decimal (9 - w) (p / 10 ^ w) ++ decimal (w - k) (p / 10 ^ k % 10 ^ (w - k)) := by
      intro k p hk
      have hadd := decimal_add (9 - w) (w - k) (p / 10 ^ k)
      rw [Nat.div_div_eq_div_mul, ← pow_add, Nat.add_sub_cancel' hk] at hadd
      rw [← hadd]
      congr 1
      lia
    rw [hcut huw, hcut hvw, List.append_assoc, List.append_assoc]
    refine below_decimal_append (Nat.div_lt_of_lt_mul ?_) ?_
    · rwa [← pow_add, Nat.add_sub_cancel' (by lia)]
    · rcases Nat.lt_or_eq_of_le (Nat.div_le_div_right (c := 10 ^ w) hlt.le) with hdiv | hdiv
      · exact Or.inl hdiv
      · -- the same digits so far, so only the greater one goes on
        have hlonger : w ≠ v := by
          rintro rfl
          have hm := Nat.div_add_mod m (10 ^ w)
          have hn := Nat.div_add_mod n (10 ^ w)
          rw [hn0] at hn
          rw [hdiv] at hm
          lia
        obtain rfl : w = u := hmax.resolve_right hlonger
        refine Or.inr ⟨hdiv, ?_⟩
        rw [Nat.sub_self]
        exact below_digit (Nat.sub_pos_of_lt (lt_of_le_of_ne hvw hlonger.symm)) _ _

theorem prints_date : Prints DateTime.days DateTime.date where
  eq := by
    intro t t' h
    obtain ⟨hyear, hordinal⟩ := sum_add_eq_sum_add t.ordinal_lt t'.ordinal_lt h
    obtain ⟨hmonth, hday⟩ := DateTime.month_day_eq hyear hordinal
    rw [DateTime.date, DateTime.date, hyear, hmonth, hday]
  below := by
    intro t t' h
    rw [DateTime.date, DateTime.date]
    rcases (sum_add_lt_sum_add_iff t.ordinal_lt t'.ordinal_lt).mp h with hyear | ⟨hyear, hordinal⟩
    · exact ((below_decimal hyear t'.year_lt).append _ _).append _ _
    · rw [hyear, List.append_assoc, List.append_assoc]
      apply Below.append_left
      apply Below.tail
      have hmonth := t'.month_lt
      refine below_decimal_append hmonth ?_
      rcases DateTime.month_day_lt hyear hordinal with hmonth | ⟨hmonth, hday⟩
      · exact Or.inl hmonth
      · exact Or.inr ⟨hmonth, .tail '-' (below_decimal hday t'.day_lt_hundred)⟩

/-! ## Names -/

theorem prints_clock : Prints DateTime.seconds DateTime.clock :=
  ((prints_date.field DateTime.hour_lt (by decide) 'T').field DateTime.minute_lt (by decide)
    ':').field DateTime.second_lt (by decide) ':'

theorem prints_printed : Prints DateTime.nanos DateTime.printed where
  eq := by
    intro t t' h
    obtain ⟨hseconds, hnano⟩ := mul_add_eq_mul_add t.nanosecond_lt t'.nanosecond_lt h
    rw [DateTime.printed, DateTime.printed, prints_clock.eq hseconds, hnano]
  below := by
    intro t t' h
    rw [DateTime.printed, DateTime.printed]
    rcases (mul_add_lt_mul_add_iff t.nanosecond_lt t'.nanosecond_lt).mp h with hlt | ⟨heq, hlt⟩
    · exact ((prints_clock.below hlt).append _ _).append _ _
    · rw [prints_clock.eq heq, List.append_assoc, List.append_assoc]
      exact (below_fraction hlt t'.nanosecond_lt _).append_left _

/-! ## Bytes

The listing compares names by their bytes. Those of a printed time are its characters. -/

/-- The bytes of a name. -/
def utf8 (s : String) : Bytes := s.toList.flatMap String.utf8EncodeChar

/-- Only characters of one byte. -/
def Ascii (l : List Char) : Prop := ∀ c ∈ l, c.toNat ≤ 127

@[simp] theorem ascii_nil : Ascii [] := List.forall_mem_nil _

@[simp] theorem ascii_cons {c : Char} {l : List Char} : Ascii (c :: l) ↔ c.toNat ≤ 127 ∧ Ascii l :=
  List.forall_mem_cons

@[simp] theorem ascii_append {l l' : List Char} : Ascii (l ++ l') ↔ Ascii l ∧ Ascii l' :=
  List.forall_mem_append

theorem utf8_eq_map {s : String} (h : Ascii s.toList) :
    utf8 s = s.toList.map (fun c => c.val.toUInt8) := by
  unfold utf8
  generalize s.toList = l at h ⊢
  induction l with
  | nil => rfl
  | cons c l ih =>
      have hc : c.val ≤ 127 := h c (List.mem_cons_self ..)
      rw [List.flatMap_cons, List.map_cons, ih (fun c hc => h c (List.mem_cons_of_mem _ hc)),
        String.utf8EncodeChar_eq_singleton (Char.utf8Size_eq_one_iff.mpr hc)]
      rfl

theorem toUInt8_lt {a b : Char} (ha : a.toNat ≤ 127) (hb : b.toNat ≤ 127) (h : a < b) :
    a.val.toUInt8 < b.val.toUInt8 := by
  have hlt : a.toNat < b.toNat := h
  rw [UInt8.lt_iff_toNat_lt]
  simp only [UInt32.toNat_toUInt8, Char.toNat_val]
  omega

@[simp] theorem ascii_decimal (width n : Nat) : Ascii (decimal width n) := by
  intro c hc
  exact le_trans (show _ ≤ '9'.toNat from (mem_decimal hc).2) (by decide)

@[simp] theorem ascii_fraction (n : Nat) : Ascii (fraction n) := by
  unfold fraction
  split <;> simp

theorem ascii_printed (t : DateTime) : Ascii t.printed := by
  simp [DateTime.printed, DateTime.clock, DateTime.date]

theorem toList_snapshotFile (s : String) :
    (snapshotFile s).toList = "snapshot-".toList ++ s.toList ++ ".bin".toList := by
  rw [snapshotFile, String.toList_append, String.toList_append]

/-! ## Listing and rotation

A directory is listed in the order of the names, and a rotation removes the first ones. -/

/-- A name is listed if it is one of a snapshot in the directory. -/
theorem mem_listSnapshots {dir : SnapshotsDir} {name : String} :
    name ∈ SnapshotsDir.listSnapshots dir ↔ isSnapshot name = true ∧ name ∈ dir.keys := by
  rw [SnapshotsDir.listSnapshots, List.mem_filter]
  exact and_comm

theorem get?_foldl_remove (names : List String) (dir : SnapshotsDir) (name : String) :
    (names.foldl SnapshotsDir.remove dir).get? name =
      if name ∈ names then none else dir.get? name := by
  induction names generalizing dir with
  | nil => rfl
  | cons oldest names ih =>
      rw [List.foldl_cons, ih, SnapshotsDir.remove, OrdMap.get?_retain]
      by_cases hname : name = oldest <;> simp [hname]

/-- The loop removes the first names, until `retain` are left. -/
theorem removeOldest_run (retain : Nat) (names : List String) (r : MyStorageResource) :
    (MyStorageResource.removeOldest retain names).run Calls.allDone r =
      (.returned (), { r with
        snapshotsDir := (names.take (names.length - retain)).foldl SnapshotsDir.remove r.snapshotsDir }) := by
  induction names generalizing r with
  | nil =>
      rw [List.take_nil]
      rfl
  | cons oldest names ih =>
      rw [MyStorageResource.removeOldest]
      split
      · next hmore =>
        have hone : (oldest :: names).length - retain = names.length - retain + 1 := by
          rw [List.length_cons]
          omega
        rw [Calls.bind_run, MyStorageResource.onDir, Calls.call_run_allDone, hone, List.take_succ_cons]
        exact ih { r with snapshotsDir := r.snapshotsDir.remove oldest }
      · next hfew =>
        rw [List.length_cons, Nat.sub_eq_zero_of_le (Nat.le_of_not_lt hfew)]
        rfl

section Chrono

-- `hprint`: a time is printed the way the documentation of `to_rfc3339` describes
variable {toRfc3339 : DateTime → String} (hprint : ∀ t, (toRfc3339 t).toList = t.printed)

include hprint

theorem ascii_name (t : DateTime) : Ascii (snapshotFile (toRfc3339 t)).toList := by
  rw [toList_snapshotFile, hprint, ascii_append, ascii_append]
  exact ⟨⟨by simp, ascii_printed t⟩, by simp⟩

theorem prints_name : Prints DateTime.nanos (fun t => (snapshotFile (toRfc3339 t)).toList) := by
  have hname := prints_printed.around "snapshot-".toList ".bin".toList
  simp only [toList_snapshotFile, hprint]
  exact hname

theorem prints_utf8 : Prints DateTime.nanos (fun t => utf8 (snapshotFile (toRfc3339 t))) := by
  have hbytes := (prints_name hprint).map (f := fun c : Char => c.val.toUInt8)
    (fun s t a ha b hb => toUInt8_lt (ascii_name hprint s a ha) (ascii_name hprint t b hb))
  simp only [utf8_eq_map (ascii_name hprint _)]
  exact hbytes

theorem name_lt_iff {t t' : DateTime} :
    snapshotFile (toRfc3339 t) < snapshotFile (toRfc3339 t') ↔ t.nanos < t'.nanos :=
  String.lt_iff_toList_lt.trans (prints_name hprint).lt_iff

/-- A listing of such names is one of times in their order. -/
theorem listed_in_order {dir : SnapshotsDir} (hnames : ∀ name ∈ dir.keys, isSnapshot name = true →
      ∃ t, snapshotFile (toRfc3339 t) = name) :
    ∃ ts : List DateTime, ts.Pairwise (fun t t' => t.nanos < t'.nanos) ∧
      SnapshotsDir.listSnapshots dir = ts.map (fun t => snapshotFile (toRfc3339 t)) := by
  obtain ⟨ts, hts⟩ : SnapshotsDir.listSnapshots dir ∈
      Set.range (List.map fun t => snapshotFile (toRfc3339 t)) := by
    rw [Set.range_list_map]
    intro name hname
    obtain ⟨hsnapshot, hmem⟩ := mem_listSnapshots.mp hname
    exact hnames name hmem hsnapshot
  have hsorted : (SnapshotsDir.listSnapshots dir).Pairwise (· < ·) := by
    rw [listSnapshots_eq]
    exact OrdMap.keys_sorted _
  rw [← hts, List.pairwise_map] at hsorted
  exact ⟨ts, hsorted.imp fun h => (name_lt_iff hprint).mp h, hts.symm⟩

/-- **Snapshots are listed and removed in the order of time**: the names compare like the times; where
every snapshot of the directory has the name of a time, the listing gives all of them, oldest first, and
a rotation removes just the oldest of them, so that the last `retain` are left. -/
theorem snapshots_in_order_of_time :
    (∀ t t' : DateTime, utf8 (snapshotFile (toRfc3339 t)) < utf8 (snapshotFile (toRfc3339 t')) ↔
      t.nanos < t'.nanos) ∧
    ∀ r : MyStorageResource,
      (∀ name ∈ r.snapshotsDir.keys, isSnapshot name = true →
        ∃ t, snapshotFile (toRfc3339 t) = name) →
      ∃ ts : List DateTime, ts.Pairwise (fun t t' => t.nanos < t'.nanos) ∧
        (∀ name, name ∈ ts.map (fun t => snapshotFile (toRfc3339 t)) ↔
          isSnapshot name = true ∧ name ∈ r.snapshotsDir.keys) ∧
        MyStorageResource.listSnapshots.run Calls.allDone r =
          (.returned (ts.map (fun t => snapshotFile (toRfc3339 t))), r) ∧
        ∀ retain, ∃ dir,
          (MyStorageResource.pruneSnapshots retain).run Calls.allDone r =
            (.returned (), { r with snapshotsDir := dir }) ∧
          (∀ name, dir.get? name =
            if name ∈ (ts.take (ts.length - retain)).map (fun t => snapshotFile (toRfc3339 t)) then none
            else r.snapshotsDir.get? name) ∧
          SnapshotsDir.visible dir = (SnapshotsDir.visible r.snapshotsDir).takeLast retain ∧
          SnapshotsDir.listSnapshots dir =
            (ts.drop (ts.length - retain)).map (fun t => snapshotFile (toRfc3339 t)) := by
  refine ⟨fun t t' => (prints_utf8 hprint).lt_iff, fun r hnames => ?_⟩
  obtain ⟨ts, hsorted, hlisted⟩ := listed_in_order hprint hnames
  have hlisting : MyStorageResource.listSnapshots.run Calls.allDone r =
      (.returned (ts.map (fun t => snapshotFile (toRfc3339 t))), r) := by
    rw [MyStorageResource.run_listSnapshots, ← listSnapshots_eq, hlisted]
  refine ⟨ts, hsorted, fun name => by rw [← hlisted, mem_listSnapshots], hlisting, fun retain => ?_⟩
  obtain ⟨dir, hrun, hdir⟩ := MyStorageResource.run_removeOldest retain r
  refine ⟨dir, ?_, fun name => ?_, hdir, ?_⟩
  · rw [MyStorageResource.pruneSnapshots, Calls.bind_run, MyStorageResource.run_listSnapshots]
    exact hrun
  · have hremoved := removeOldest_run retain (SnapshotsDir.visible r.snapshotsDir).keys r
    rw [hrun, ← listSnapshots_eq, hlisted, List.length_map, ← List.map_take] at hremoved
    have hleft := congrArg (fun out => out.2.snapshotsDir) hremoved
    exact (congrArg (OrdMap.get? · name) hleft).trans (get?_foldl_remove _ _ _)
  · rw [listSnapshots_eq, hdir, keys_takeLast, ← listSnapshots_eq, hlisted, List.length_map,
      List.map_drop]

/-- Checkpoints at later and later times create files in the order of their names. -/
theorem files_in_order_of_time {ops : List StoreOp} {ts : List DateTime}
    (hts : ops.filterMap StoreOp.timestamp? = ts.map toRfc3339)
    (hsorted : ts.Pairwise (fun t t' => t.nanos < t'.nanos)) :
    (StoreOp.files ops).Pairwise (· < ·) := by
  have hfiles : StoreOp.files ops = (ops.filterMap StoreOp.timestamp?).map snapshotFile :=
    (List.map_filterMap ..).symm
  rw [hfiles, hts, List.map_map, List.pairwise_map]
  exact hsorted.imp fun h => (name_lt_iff hprint).mpr h

end Chrono

/-- Noon on the last day of February 2024. -/
def leapDay : DateTime where
  year := 2024
  month := 2
  day := 29
  hour := 12
  minute := 0
  second := 0
  nanosecond := 0
  year_lt := by decide
  month_range := by decide
  day_range := by decide
  hour_lt := by decide
  minute_lt := by decide
  second_lt := by decide
  nanosecond_lt := by decide

/-- A quarter of a second later. -/
def leapDayLater : DateTime := { leapDay with nanosecond := 250000000, nanosecond_lt := by decide }

example : String.ofList leapDayLater.printed = "2024-02-29T12:00:00.250+00:00" := by decide

theorem leapDay_lt_later : leapDay.nanos < leapDayLater.nanos := by
  have hseconds : leapDay.seconds = leapDayLater.seconds := by
    simp only [DateTime.seconds, DateTime.minutes, DateTime.hours, DateTime.days, DateTime.ordinal,
      leapDayLater]
  refine (mul_add_lt_mul_add_iff leapDay.nanosecond_lt leapDayLater.nanosecond_lt).mpr
    (Or.inr ⟨hseconds, ?_⟩)
  decide

/-- A directory with the snapshots of both times, and a third one that has not been renamed. -/
def twoSnapshots : MyStorageResource :=
  .new (((OrdMap.insert ∅ (snapshotFile (String.ofList leapDayLater.printed)) [1]).insert
    (snapshotFile (String.ofList leapDay.printed)) [0]).insert
    (MyStorageResource.tmpFile (String.ofList leapDay.printed)) []) [] [] 1

/-- A name without a fraction comes before the name with one; both are listed, and one that has not been
renamed is not. -/
theorem snapshots_in_order_later :
    utf8 (snapshotFile (String.ofList leapDay.printed)) <
      utf8 (snapshotFile (String.ofList leapDayLater.printed)) ∧
    ∃ ts : List DateTime, ts.Pairwise (fun t t' => t.nanos < t'.nanos) ∧
      (∀ name, name ∈ ts.map (fun t => snapshotFile (String.ofList t.printed)) ↔
        isSnapshot name = true ∧ name ∈ twoSnapshots.snapshotsDir.keys) := by
  have hall := @snapshots_in_order_of_time (fun t => String.ofList t.printed)
    (fun _ => String.toList_ofList)
  refine ⟨(hall.1 leapDay leapDayLater).mpr leapDay_lt_later, ?_⟩
  obtain ⟨ts, hsorted, hmem, -⟩ := hall.2 twoSnapshots (fun name hname hsnapshot => by
    obtain ⟨bytes, hget⟩ := OrdMap.mem_keys.mp hname
    simp only [twoSnapshots, MyStorageResource.new, OrdMap.get?_insert] at hget
    split at hget
    · next htmp =>
      rw [htmp, MyStorageResource.tmpFile, isSnapshot_tmp] at hsnapshot
      cases hsnapshot
    · split at hget
      · next hfirst => exact ⟨leapDay, hfirst.symm⟩
      · split at hget
        · next hsecond => exact ⟨leapDayLater, hsecond.symm⟩
        · cases hget)
  exact ⟨ts, hsorted, hmem⟩

end PaxosWasm
