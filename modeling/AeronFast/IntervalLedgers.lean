import AeronFast.CommonTypes
import AeronFast.Throughput

/-!
What the interval reports of a run have told about its messages. The marks are
the counters a statistics thread works with; the ledger is kept beside them and
lists every message counted, those counted after the latest report, and each
interval for which a line was printed with the messages it covers. A line shows
the totals and the rates of its interval. The marks agree with the ledger
modulo 2^64 as long as no report throws messages away.
-/
namespace AeronFast.IntervalLedgers

open CommonTypes Throughput WordArithmetic

/-- A message by its place in the order of counting. -/
structure Message where
  number : ℕ
  bytes : ℕ
  deriving DecidableEq, Repr

def byteCount (messages : List Message) : ℕ := (messages.map Message.bytes).sum

@[simp] theorem byteCount_append (left right : List Message) :
    byteCount (left ++ right) = byteCount left + byteCount right := by
  simp [byteCount]

@[simp] theorem byteCount_singleton (m : Message) : byteCount [m] = m.bytes := by
  simp [byteCount]

/-- An interval with the line printed for it, which shows the totals and the rates. The rates are
those of the differences `messages` and `bytes`; `included` are the messages it covers. -/
structure Interval where
  start : TimestampNs
  stop : TimestampNs
  messages : UInt64
  bytes : UInt64
  totalMessages : UInt64
  totalBytes : UInt64
  rates : Rates
  included : List Message
  deriving DecidableEq, Repr

structure Marks where
  startTime : TimestampNs
  lastStatsTime : TimestampNs
  messages : UInt64
  bytes : UInt64
  lastMessages : UInt64
  lastBytes : UInt64
  deriving DecidableEq, Repr

namespace Marks

def count (bytes : UInt64) (m : Marks) : Marks :=
  { m with messages := m.messages + 1, bytes := m.bytes + bytes }

def report (now : TimestampNs) (m : Marks) : Marks :=
  { m with lastStatsTime := now, lastMessages := m.messages, lastBytes := m.bytes }

/-- The rates that a report at `now` prints. -/
def rates (now : TimestampNs) (m : Marks) : Option Rates :=
  throughput (m.messages - m.lastMessages) (m.bytes - m.lastBytes) (now - m.lastStatsTime)

/-- The marks from which a report at `now` has got these differences. -/
def seen (now : TimestampNs) (time messages bytes : UInt64) (m : Marks) : Marks :=
  { m with
    lastStatsTime := now - time
    lastMessages := m.messages - messages
    lastBytes := m.bytes - bytes }

end Marks

structure Ledger where
  counted : List Message
  pending : List Message
  printed : List Interval
  deriving DecidableEq, Repr

namespace Ledger

def empty : Ledger := ⟨[], [], []⟩

def count (bytes : ℕ) (l : Ledger) : Ledger :=
  { l with
    counted := l.counted ++ [⟨l.counted.length, bytes⟩]
    pending := l.pending ++ [⟨l.counted.length, bytes⟩] }

/-- A report at `now` under the given marks, which printed the given rates or nothing. -/
def report (m : Marks) (now : TimestampNs) (rates : Option Rates) (l : Ledger) : Ledger :=
  { l with
    pending := []
    printed := l.printed ++ (rates.map (fun r =>
      ⟨m.lastStatsTime, now, m.messages - m.lastMessages, m.bytes - m.lastBytes, m.messages,
        m.bytes, r, l.pending⟩)).toList }

/-- The messages that some printed interval covers. -/
def reported (l : Ledger) : List Message := l.printed.flatMap Interval.included

end Ledger

/-- The first interval starts at the given time, each later one where the one before it ended. -/
def Chained : TimestampNs → List Interval → Prop
  | _, [] => True
  | t, i :: rest => i.start = t ∧ Chained i.stop rest

/-- Where a chain that started at the given time has got to. -/
def lastStop : TimestampNs → List Interval → TimestampNs
  | t, [] => t
  | _, i :: rest => lastStop i.stop rest

theorem lastStop_snoc (t : TimestampNs) (intervals : List Interval) (i : Interval) :
    lastStop t (intervals ++ [i]) = i.stop := by
  induction intervals generalizing t with
  | nil => rfl
  | cons j rest ih => exact ih j.stop

theorem chained_snoc (t : TimestampNs) (intervals : List Interval) (i : Interval)
    (h : Chained t intervals) (hi : i.start = lastStop t intervals) :
    Chained t (intervals ++ [i]) := by
  induction intervals generalizing t with
  | nil => exact ⟨hi, trivial⟩
  | cons j rest ih => exact ⟨h.1, ih j.stop h.2 hi⟩

/-- The interval reports tile the run up to now: the printed intervals follow one another from
the start time, each counted message is in one of them or came after the latest report, and
their figures add up to what the latest report left behind. -/
structure Tiles (m : Marks) (l : Ledger) : Prop where
  chained : Chained m.startTime l.printed
  covered : l.reported ++ l.pending = l.counted
  numbered : l.counted.map Message.number = List.range l.counted.length
  figures : ∀ i ∈ l.printed, i.messages.toNat = i.included.length % 2 ^ 64 ∧
    i.bytes.toNat = byteCount i.included % 2 ^ 64
  lastMessages : m.lastMessages.toNat = wordSum (l.printed.map Interval.messages) % 2 ^ 64
  lastBytes : m.lastBytes.toNat = wordSum (l.printed.map Interval.bytes) % 2 ^ 64

/-- The counters hold the messages counted. -/
structure Counting (m : Marks) (l : Ledger) : Prop where
  messages : m.messages.toNat = l.counted.length % 2 ^ 64
  bytes : m.bytes.toNat = byteCount l.counted % 2 ^ 64

/-- The next interval starts where the printed ones end. -/
def Continues (m : Marks) (l : Ledger) : Prop :=
  m.lastStatsTime = lastStop m.startTime l.printed

theorem rates_eq_none_iff (m : Marks) (now : TimestampNs) :
    m.rates now = none ↔ now = m.lastStatsTime := by
  have hpos : 0 < now - m.lastStatsTime ↔ now ≠ m.lastStatsTime := by
    rw [UInt64.pos_iff_ne_zero, Ne, UInt64.sub_eq_iff_eq_add, UInt64.zero_add]
  rw [Marks.rates, throughput]
  split
  · rename_i h
    simp [hpos.mp h]
  · rename_i h
    simpa [hpos] using h

section Steps

variable {m : Marks} {l : Ledger}

theorem tiles_empty (hmessages : m.lastMessages = 0) (hbytes : m.lastBytes = 0) :
    Tiles m Ledger.empty where
  chained := trivial
  covered := rfl
  numbered := rfl
  figures := by simp [Ledger.empty]
  lastMessages := by rw [hmessages]; rfl
  lastBytes := by rw [hbytes]; rfl

theorem Counting.count (h : Counting m l) (bytes : ℕ) (word : UInt64)
    (hword : word.toNat = bytes % 2 ^ 64) : Counting (m.count word) (l.count bytes) where
  messages := by
    have hadd := total_add m.messages 1 _ h.messages
    simpa [Marks.count, Ledger.count] using hadd
  bytes := by
    have hadd := total_add m.bytes word _ h.bytes
    rw [hword, Nat.add_mod_mod] at hadd
    simpa [Marks.count, Ledger.count] using hadd

theorem Tiles.count (h : Tiles m l) (bytes : ℕ) (word : UInt64) :
    Tiles (m.count word) (l.count bytes) where
  chained := h.chained
  covered := by
    have hreported : (l.count bytes).reported = l.reported := rfl
    rw [hreported, Ledger.count, ← List.append_assoc, h.covered]
  numbered := by
    simp [Ledger.count, h.numbered, List.range_succ]
  figures := h.figures
  lastMessages := h.lastMessages
  lastBytes := h.lastBytes

/-- The times may still be set while nothing is printed. -/
theorem Tiles.setTimes (h : Tiles m l) (hprinted : l.printed = [])
    (startTime lastStatsTime : TimestampNs) :
    Tiles { m with startTime := startTime, lastStatsTime := lastStatsTime } l where
  chained := by
    rw [hprinted]
    exact trivial
  covered := h.covered
  numbered := h.numbered
  figures := h.figures
  lastMessages := h.lastMessages
  lastBytes := h.lastBytes

/-- Intervals whose figures are right add up to the figures of all their messages. -/
theorem sum_figures (intervals : List Interval)
    (h : ∀ i ∈ intervals, i.messages.toNat = i.included.length % 2 ^ 64 ∧
      i.bytes.toNat = byteCount i.included % 2 ^ 64) :
    wordSum (intervals.map Interval.messages) % 2 ^ 64 =
        (intervals.flatMap Interval.included).length % 2 ^ 64 ∧
      wordSum (intervals.map Interval.bytes) % 2 ^ 64 =
        byteCount (intervals.flatMap Interval.included) % 2 ^ 64 := by
  induction intervals using List.reverseRecOn with
  | nil => exact ⟨rfl, rfl⟩
  | append_singleton intervals i ih =>
    obtain ⟨hmessages, hbytes⟩ := ih (fun j hj => h j (by simp [hj]))
    obtain ⟨hm, hb⟩ := h i (by simp)
    simp only [List.map_append, List.map_cons, List.map_nil, wordSum_append, wordSum_singleton,
      List.flatMap_append, List.flatMap_singleton, List.length_append, byteCount_append, hm, hb]
    omega

/-- The figures of the next interval are those of the messages since the latest report. -/
theorem pending_figures (h : Tiles m l) (hc : Counting m l) :
    (m.messages - m.lastMessages).toNat = l.pending.length % 2 ^ 64 ∧
      (m.bytes - m.lastBytes).toNat = byteCount l.pending % 2 ^ 64 := by
  obtain ⟨hmessages, hbytes⟩ := sum_figures l.printed h.figures
  constructor
  · apply toNat_sub_of_totals _ _ l.reported.length
    · rw [hc.messages, ← h.covered, List.length_append]
    · rw [h.lastMessages, hmessages]
      rfl
  · apply toNat_sub_of_totals _ _ (byteCount l.reported)
    · rw [hc.bytes, ← h.covered, byteCount_append]
    · rw [h.lastBytes, hbytes]
      rfl

theorem Counting.report (h : Counting m l) (now : TimestampNs) (rates : Option Rates) :
    Counting (m.report now) (l.report m now rates) :=
  ⟨h.messages, h.bytes⟩

variable {now : TimestampNs}

/-- After a report nothing is pending: it tiles as soon as the printed intervals cover all. -/
theorem tiles_report {rates : Option Rates} (h : Tiles m l) (hc : Counting m l)
    (hchained : Chained m.startTime (l.report m now rates).printed)
    (hfigures : ∀ i ∈ (l.report m now rates).printed,
      i.messages.toNat = i.included.length % 2 ^ 64 ∧
        i.bytes.toNat = byteCount i.included % 2 ^ 64)
    (hreported : (l.report m now rates).reported = l.counted) :
    Tiles (m.report now) (l.report m now rates) := by
  obtain ⟨hmessages, hbytes⟩ := sum_figures _ hfigures
  refine ⟨hchained, ?_, h.numbered, hfigures, ?_, ?_⟩
  · rw [hreported]
    exact List.append_nil _
  · rw [hmessages, ← Ledger.reported, hreported]
    exact hc.messages
  · rw [hbytes, ← Ledger.reported, hreported]
    exact hc.bytes

/-- A report that prints nothing is harmless when nothing was counted since the latest one. -/
theorem Tiles.report_silent (h : Tiles m l) (hc : Counting m l) (hnow : now = m.lastStatsTime)
    (hpending : l.pending = []) :
    Tiles (m.report now) (l.report m now (m.rates now)) := by
  have hprinted : (l.report m now (m.rates now)).printed = l.printed := by
    simp [Ledger.report, (rates_eq_none_iff m now).mpr hnow]
  apply tiles_report h hc
  · rw [hprinted]
    exact h.chained
  · rw [hprinted]
    exact h.figures
  · rw [Ledger.reported, hprinted, ← Ledger.reported, ← h.covered, hpending, List.append_nil]

theorem Tiles.report_printed (h : Tiles m l) (hc : Counting m l) (hcont : Continues m l)
    (hnow : now ≠ m.lastStatsTime) :
    Tiles (m.report now) (l.report m now (m.rates now)) := by
  obtain ⟨rates, hrates⟩ := Option.ne_none_iff_exists'.mp (mt (rates_eq_none_iff m now).mp hnow)
  have hprinted : (l.report m now (m.rates now)).printed = l.printed ++
      [⟨m.lastStatsTime, now, m.messages - m.lastMessages, m.bytes - m.lastBytes, m.messages,
        m.bytes, rates, l.pending⟩] := by
    simp [Ledger.report, hrates]
  apply tiles_report h hc
  · rw [hprinted]
    exact chained_snoc _ _ _ h.chained hcont
  · intro i hi
    rw [hprinted] at hi
    rcases List.mem_append.mp hi with hi | hi
    · exact h.figures i hi
    · rw [List.mem_singleton.mp hi]
      exact pending_figures h hc
  · rw [Ledger.reported, hprinted, List.flatMap_append, List.flatMap_singleton]
    exact h.covered

theorem Continues.report (h : Continues m l) (now : TimestampNs) :
    Continues (m.report now) (l.report m now (m.rates now)) := by
  by_cases hnow : now = m.lastStatsTime
  · have hrates := (rates_eq_none_iff m now).mpr hnow
    simp only [Continues, Marks.report, Ledger.report, hrates, Option.map_none,
      Option.toList_none, List.append_nil]
    rw [hnow]
    exact h
  · obtain ⟨rates, hrates⟩ :=
      Option.ne_none_iff_exists'.mp (mt (rates_eq_none_iff m now).mp hnow)
    simp only [Continues, Marks.report, Ledger.report, hrates, Option.map_some,
      Option.toList_some, lastStop_snoc]

end Steps

/-- The line of an interval is a true account of messages in the order they were counted: its
totals are those of the messages up to its end, and its rates are those of the messages it
covers over the time it took. -/
structure TrueLine (counted : List Message) (i : Interval) : Prop where
  covered : ∃ earlier later, counted = earlier ++ i.included ++ later ∧
    i.totalMessages.toNat = (earlier ++ i.included).length % 2 ^ 64 ∧
    i.totalBytes.toNat = byteCount (earlier ++ i.included) % 2 ^ 64
  messages : i.messages.toNat = i.included.length % 2 ^ 64
  bytes : i.bytes.toNat = byteCount i.included % 2 ^ 64
  rates : throughput i.messages i.bytes (i.stop - i.start) = some i.rates

theorem TrueLine.count {counted : List Message} {i : Interval} (h : TrueLine counted i)
    (m : Message) : TrueLine (counted ++ [m]) i where
  covered := by
    obtain ⟨earlier, later, hsplit, htotals⟩ := h.covered
    exact ⟨earlier, later ++ [m], by rw [hsplit, List.append_assoc _ later], htotals⟩
  messages := h.messages
  bytes := h.bytes
  rates := h.rates

/-- Whatever the clock does: the marks of the latest report stand for the messages counted before
it, and each printed line is true. -/
structure Consistent (m : Marks) (l : Ledger) : Prop where
  counting : Counting m l
  latest : ∃ earlier, l.counted = earlier ++ l.pending ∧
    m.lastMessages.toNat = earlier.length % 2 ^ 64 ∧ m.lastBytes.toNat = byteCount earlier % 2 ^ 64
  numbered : l.counted.map Message.number = List.range l.counted.length
  lines : ∀ i ∈ l.printed, TrueLine l.counted i

section Consistency

variable {m : Marks} {l : Ledger}

theorem Consistent.count (h : Consistent m l) (bytes : ℕ) (word : UInt64)
    (hword : word.toNat = bytes % 2 ^ 64) : Consistent (m.count word) (l.count bytes) where
  counting := h.counting.count bytes word hword
  latest := by
    obtain ⟨earlier, hsplit, hmessages, hbytes⟩ := h.latest
    refine ⟨earlier, ?_, hmessages, hbytes⟩
    simp only [Ledger.count]
    rw [← List.append_assoc, ← hsplit]
  numbered := by
    simp [Ledger.count, h.numbered, List.range_succ]
  lines := fun i hi => (h.lines i hi).count _

/-- The line of a report is true: its mutex keeps the totals and the marks still. -/
theorem Consistent.trueLine (h : Consistent m l) {now : TimestampNs} {rates : Rates}
    (hrates : m.rates now = some rates) :
    TrueLine l.counted ⟨m.lastStatsTime, now, m.messages - m.lastMessages, m.bytes - m.lastBytes,
      m.messages, m.bytes, rates, l.pending⟩ := by
  obtain ⟨earlier, hsplit, hmessages, hbytes⟩ := h.latest
  refine ⟨⟨earlier, [], ?_, ?_, ?_⟩, ?_, ?_, hrates⟩
  · rw [List.append_nil, hsplit]
  · rw [← hsplit]
    exact h.counting.messages
  · rw [← hsplit]
    exact h.counting.bytes
  · apply toNat_sub_of_totals _ _ earlier.length
    · rw [h.counting.messages, hsplit, List.length_append]
    · exact hmessages
  · apply toNat_sub_of_totals _ _ (byteCount earlier)
    · rw [h.counting.bytes, hsplit, byteCount_append]
    · exact hbytes

theorem Consistent.report (h : Consistent m l) (now : TimestampNs) :
    Consistent (m.report now) (l.report m now (m.rates now)) where
  counting := h.counting.report now _
  latest := ⟨l.counted, (List.append_nil _).symm, h.counting.messages, h.counting.bytes⟩
  numbered := h.numbered
  lines := by
    intro i hi
    simp only [Ledger.report, List.mem_append, Option.mem_toList, Option.map_eq_some_iff] at hi
    rcases hi with hi | ⟨r, hr, rfl⟩
    · exact h.lines i hi
    · exact h.trueLine hr

end Consistency

end AeronFast.IntervalLedgers
