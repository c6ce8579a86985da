import AeronFast.ThreadedPublisher

/-!
The publisher between `pthread_create` and the first test of its send loop. The
main thread sets the start time and the time of the last report without the
mutex, and the statistics thread may report meanwhile. Nothing is counted yet,
so such a report finds zeros, whatever it makes of the two times. From the first
loop test on every step is one of the loop.
-/
namespace AeronFast.PublisherStartup

open CommonTypes ByteBuffers ConfigParser BinaryPublisher PublisherRuns Throughput LabelledRuns
open IntervalLedgers IntervalTiling JoinDelay LockedSections ReporterProtocol ThreadedPublisher

/-- The memory of the two threads and the mutex. -/
abbrev SendMemory := Memory SendThreads MutexSection

/-- What the main thread does before the loop. -/
inductive Starts (s : SendThreads) : Unprotected → SendThreads → Prop
  | startTime (now : TimestampNs) : s.point = .startTime →
      Starts s (.startTime now)
        { setStats (fun g => { g with startTime := now }) s with point := .lastStatsTime }
  | lastStatsTime : s.point = .lastStatsTime →
      Starts s .lastStatsTime
        { setStats (fun g => { g with lastStatsTime := g.startTime }) s with point := .loopTest }

section Phases

variable {host : ByteOrder} {config : Config}

theorem unprotected_cases {s s' : SendThreads} {t : Thread} {u : Unprotected}
    (h : unprotected host config t u s = some s') :
    t = .main ∧ Starts s u s' ∨ loopUnprotected host config t u s = some s' := by
  cases t with
  | main =>
    cases u with
    | startTime now =>
      obtain ⟨hpoint, hnext⟩ := Option.ite_none_right_eq_some.mp h
      cases hnext
      exact Or.inl ⟨rfl, .startTime now hpoint⟩
    | lastStatsTime =>
      obtain ⟨hpoint, hnext⟩ := Option.ite_none_right_eq_some.mp h
      cases hnext
      exact Or.inl ⟨rfl, .lastStatsTime hpoint⟩
    | _ => exact Or.inr h
  | stats => exact Or.inr (by cases u <;> exact h)
  | signal => exact Or.inr (by cases u <;> exact h)

/-- The two statements before the loop move the main thread only. -/
theorem stays_program (host : ByteOrder) (config : Config) : Stays (program host config) where
  stays := (commits_firstStatement host config).stays
  waits e t u s s' ht hfree henter := by
    rcases unprotected_cases hfree with ⟨rfl, hstarts⟩ | hloop
    · cases e with
      | account result => exact absurd rfl ht
      | final now => exact absurd rfl ht
      | report now => cases hstarts <;> exact henter
    · exact (commits_firstStatement host config).waits e t u s s' ht hloop henter

/-- Under the mutex neither the flag nor the place of a thread is written. -/
theorem statements_frame (host : ByteOrder) (config : Config) (e : MutexSection)
    (f : SendThreads → SendThreads) (hf : f ∈ (program host config).statements e)
    (s : SendThreads) :
    (f s).publisher.running = s.publisher.running ∧ (f s).reporter = s.reporter ∧
      (f s).point = s.point := by
  cases e with
  | account result =>
    simp only [program, sendLoop, accountStatements] at hf
    split_ifs at hf
    · simp only [List.mem_cons, List.not_mem_nil, or_false] at hf
      rcases hf with rfl | rfl
      · exact ⟨rfl, rfl, rfl⟩
      · exact ⟨rfl, rfl, rfl⟩
    · rw [List.mem_singleton.mp hf]
      exact ⟨rfl, rfl, rfl⟩
    · rw [List.mem_singleton.mp hf]
      exact ⟨rfl, rfl, rfl⟩
  | report now =>
    obtain ⟨stats, locals, ledger, rfl⟩ := mem_reportStatements hf
    exact ⟨rfl, rfl, rfl⟩
  | final now =>
    rw [List.mem_singleton.mp hf]
    exact ⟨rfl, rfl, rfl⟩

end Phases

section Blank

variable {host : ByteOrder} {config : Config} {garbage : ℕ → UInt8}

/-- Nothing is counted: the publisher is as it starts, but for the marks that a report sets, and
the lines printed show nothing. -/
structure Blank (config : Config) (garbage : ℕ → UInt8) (s : SendThreads) : Prop where
  publisher : ∃ stopped, clearMarks s.publisher.stats.startTime s.publisher =
    startPublisher config garbage s.publisher.stats.startTime stopped
  lastMessages : s.publisher.stats.lastMessagesSent = 0
  lastBytes : s.publisher.stats.lastBytesSent = 0
  counted : s.ledger.counted = []
  pending : s.ledger.pending = []
  lines : ∀ i ∈ s.ledger.printed, TrueLine [] i

variable {s : SendThreads}

/-- Nothing else matters of a state that differs in the marks and in the threads' own data. -/
theorem Blank.congr {s' : SendThreads} (h : Blank config garbage s)
    (hpublisher : clearMarks 0 s'.publisher = clearMarks 0 s.publisher)
    (hmessages : s'.publisher.stats.lastMessagesSent = 0)
    (hbytes : s'.publisher.stats.lastBytesSent = 0) (hledger : s'.ledger = s.ledger) :
    Blank config garbage s' where
  publisher := by
    obtain ⟨stopped, hstart⟩ := h.publisher
    have htime := congrArg (fun p : Publisher => p.stats.startTime) hpublisher
    have hclear := congrArg (clearMarks s.publisher.stats.startTime) hpublisher
    refine ⟨stopped, ?_⟩
    simp only [clearMarks] at htime hclear
    rw [htime, clearMarks, hclear]
    exact hstart
  lastMessages := hmessages
  lastBytes := hbytes
  counted := by rw [hledger]; exact h.counted
  pending := by rw [hledger]; exact h.pending
  lines := by rw [hledger]; exact h.lines

end Blank

section Runs

variable {host : ByteOrder} {config : Config} {garbage : ℕ → UInt8} {stopped : Bool}
variable {reporter : ReporterPoint} {locals : ReportLocals} {K : SendMemory → SendAction → Prop}
variable {m n : SendMemory} {actions : List SendAction}

end Runs

end AeronFast.PublisherStartup
