import AeronFast.BinarySubscriber

/-!
What the subscriber's books say about the fragments delivered so far. The
handler skips a fragment too short for a timestamp and counts every other one
as a message. After any sequence of handler calls both sets of books, the
plain fields and the statistics object, are functions of the counted
fragments; the target test and the interval reports leave them alone.
-/
namespace AeronFast.SubscriberRuns

open CommonTypes ByteBuffers BinaryMessage LabelledRuns WordArithmetic Recorders BinarySubscriber

/-- Long enough to carry a timestamp. -/
def counted (f : Fragment) : Bool := timestampSize ≤ f.buffer.length

/-- The latencies of the counted fragments, oldest first. -/
def latencies (host : ByteOrder) (fragments : List Fragment) : List UInt64 :=
  (fragments.filter counted).map (fragmentLatency host)

/-- The bytes of the counted fragments, over unbounded naturals. -/
def byteTotal (fragments : List Fragment) : ℕ :=
  ((fragments.filter counted).map (fun f => f.buffer.length)).sum

/-- The statistics object agrees with the plain fields. -/
def SameBooks (g : SubscriberStats) (q : PerformanceStats) : Prop :=
  q.messageCount = g.messagesReceived ∧ q.totalLatency = g.totalLatency ∧
    q.minLatency = g.minLatency ∧ q.maxLatency = g.maxLatency

/-- Both sets of books, as functions of the fragments handed to the handler so far. -/
structure Received (host : ByteOrder) (fragments : List Fragment) (s : Subscriber) : Prop where
  recorded : s.recorded = latencies host fragments
  messagesReceived : s.stats.messagesReceived.toNat =
    (latencies host fragments).length % 2 ^ 64
  bytesReceived : s.stats.bytesReceived.toNat = byteTotal fragments % 2 ^ 64
  fragmentsReceived : s.stats.fragmentsReceived = s.stats.messagesReceived
  totalLatency : s.stats.totalLatency.toNat = wordSum (latencies host fragments) % 2 ^ 64
  extremes : Extremes s.stats.minLatency s.stats.maxLatency (latencies host fragments)
  books : ∃ q, s.stats.latencyStats = some q ∧ SameBooks s.stats q ∧
    q.latencyBucketLimits 9 = uint64Max ∧
    tally q.latencyBuckets % 2 ^ 64 = s.stats.messagesReceived.toNat ∧
    ((latencies host fragments).length < 2 ^ 64 →
      tally q.latencyBuckets = (latencies host fragments).length)

theorem latencies_length (host : ByteOrder) (fragments : List Fragment) :
    (latencies host fragments).length = fragments.countP counted := by
  rw [latencies, List.length_map, List.countP_eq_length_filter]

theorem Received.recorded_length {host : ByteOrder} {fragments : List Fragment} {s : Subscriber}
    (h : Received host fragments s) : s.recorded.length = fragments.countP counted := by
  rw [h.recorded, latencies_length]

theorem Received.messagesReceived_mod {host : ByteOrder} {fragments : List Fragment}
    {s : Subscriber} (h : Received host fragments s) :
    s.stats.messagesReceived.toNat = fragments.countP counted % 2 ^ 64 := by
  rw [h.messagesReceived, latencies_length]

theorem latencies_snoc_counted (host : ByteOrder) (fragments : List Fragment) (f : Fragment)
    (h : counted f = true) :
    latencies host (fragments ++ [f]) = latencies host fragments ++ [fragmentLatency host f] := by
  simp [latencies, List.filter_append, h]

theorem latencies_snoc_short (host : ByteOrder) (fragments : List Fragment) (f : Fragment)
    (h : counted f = false) : latencies host (fragments ++ [f]) = latencies host fragments := by
  simp [latencies, List.filter_append, h]

theorem byteTotal_snoc_counted (fragments : List Fragment) (f : Fragment)
    (h : counted f = true) : byteTotal (fragments ++ [f]) = byteTotal fragments + f.buffer.length := by
  simp [byteTotal, List.filter_append, h]

theorem byteTotal_snoc_short (fragments : List Fragment) (f : Fragment)
    (h : counted f = false) : byteTotal (fragments ++ [f]) = byteTotal fragments := by
  simp [byteTotal, List.filter_append, h]

theorem process_short (host : ByteOrder) (f : Fragment) (s : Subscriber)
    (h : counted f = false) : processMessageFragment host f s = s := by
  have hlength : f.buffer.length < timestampSize := by
    simpa [counted] using h
  exact if_pos hlength

theorem process_counted (host : ByteOrder) (f : Fragment) (s : Subscriber)
    (h : counted f = true) :
    processMessageFragment host f s = checkTarget f.clock (countFragment host f s) := by
  have hlength : ¬ f.buffer.length < timestampSize := by
    simpa [counted] using h
  exact if_neg hlength

/-- The handler leaves the start time and the marks of the reports alone. -/
theorem process_marks (host : ByteOrder) (f : Fragment) (s : Subscriber) :
    (processMessageFragment host f s).stats.startTime = s.stats.startTime ∧
      (processMessageFragment host f s).stats.lastMessagesReceived =
        s.stats.lastMessagesReceived ∧
      (processMessageFragment host f s).stats.lastBytesReceived = s.stats.lastBytesReceived := by
  cases hf : counted f with
  | true =>
    rw [process_counted host f s hf, checkTarget]
    split
    · exact ⟨rfl, rfl, rfl⟩
    · exact ⟨rfl, rfl, rfl⟩
  | false =>
    rw [process_short host f s hf]
    exact ⟨rfl, rfl, rfl⟩

theorem received_start (host : ByteOrder) (target : UInt64) (startTime : TimestampNs)
    (stopped : Bool) : Received host [] (startSubscriber target startTime stopped) where
  recorded := rfl
  messagesReceived := rfl
  bytesReceived := rfl
  fragmentsReceived := rfl
  totalLatency := rfl
  extremes := extremes_nil
  books := ⟨createPerformanceStats, rfl, ⟨rfl, rfl, rfl, rfl⟩, rfl, rfl, fun _ => rfl⟩

/-- The target test touches neither set of books. -/
theorem received_checkTarget {host : ByteOrder} {fragments : List Fragment} {s : Subscriber}
    (now : TimestampNs) (h : Received host fragments s) :
    Received host fragments (checkTarget now s) := by
  unfold checkTarget
  split
  · exact ⟨h.recorded, h.messagesReceived, h.bytesReceived, h.fragmentsReceived,
      h.totalLatency, h.extremes, h.books⟩
  · exact h

theorem received_countFragment {host : ByteOrder} {fragments : List Fragment} {s : Subscriber}
    (f : Fragment) (hf : counted f = true) (h : Received host fragments s) :
    Received host (fragments ++ [f]) (countFragment host f s) := by
  obtain ⟨q, hq, hsame, hlimit, htally, hexact⟩ := h.books
  have hcount := total_add s.stats.messagesReceived 1 _ h.messagesReceived
  have hlatency := latencies_snoc_counted host fragments f hf
  have hlength : (latencies host (fragments ++ [f])).length =
      (latencies host fragments).length + 1 := by
    rw [hlatency, List.length_append]
    rfl
  refine ⟨?_, ?_, ?_, ?_, ?_, ?_, ?_⟩
  · rw [hlatency, ← h.recorded]
    simp [countFragment, hq]
  · rw [hlength]
    exact hcount
  · rw [byteTotal_snoc_counted fragments f hf]
    have hbytes := total_add s.stats.bytesReceived (UInt64.ofNat f.buffer.length) _ h.bytesReceived
    rw [UInt64.toNat_ofNat', Nat.add_mod_mod] at hbytes
    exact hbytes
  · simp only [countFragment, h.fragmentsReceived]
  · rw [hlatency, wordSum_append, wordSum_singleton]
    exact total_add s.stats.totalLatency (fragmentLatency host f) _ h.totalLatency
  · rw [hlatency]
    exact extremes_snoc (fragmentLatency host f) h.extremes
  · obtain ⟨i, hi⟩ := exists_latencyBucket q.latencyBucketLimits hlimit (fragmentLatency host f)
    have hbuckets : (recordLatency q (fragmentLatency host f)).latencyBuckets =
        bump q.latencyBuckets i := by
      rw [recordLatency_latencyBuckets, hi]
      rfl
    refine ⟨recordLatency q (fragmentLatency host f), by simp [countFragment, hq], ?_, hlimit,
      ?_, ?_⟩
    · obtain ⟨hcountEq, htotalEq, hminEq, hmaxEq⟩ := hsame
      refine ⟨congrArg (· + 1) hcountEq, congrArg (· + fragmentLatency host f) htotalEq, ?_, ?_⟩
      · simp only [countFragment, recordLatency_minLatency, hminEq]
      · simp only [countFragment, recordLatency_maxLatency, hmaxEq]
    · rw [hbuckets, tally_bump_mod]
      change _ = (s.stats.messagesReceived + 1).toNat
      rw [toNat_add_one_mod, ← htally, Nat.mod_add_mod]
    · intro hlt
      rw [hlength] at hlt ⊢
      have hold := hexact (by omega)
      have hcell := cell_le_tally q.latencyBuckets i
      rw [hbuckets, tally_bump q.latencyBuckets i (by omega), hold]

/-- One call of the handler. -/
theorem received_process {host : ByteOrder} {fragments : List Fragment} {s : Subscriber}
    (f : Fragment) (h : Received host fragments s) :
    Received host (fragments ++ [f]) (processMessageFragment host f s) := by
  cases hf : counted f with
  | true =>
    rw [process_counted host f s hf]
    exact received_checkTarget f.clock (received_countFragment f hf h)
  | false =>
    rw [process_short host f s hf]
    have hlatency := latencies_snoc_short host fragments f hf
    have hbytes := byteTotal_snoc_short fragments f hf
    refine ⟨?_, ?_, ?_, h.fragmentsReceived, ?_, ?_, ?_⟩
    · rw [hlatency]
      exact h.recorded
    · rw [hlatency]
      exact h.messagesReceived
    · rw [hbytes]
      exact h.bytesReceived
    · rw [hlatency]
      exact h.totalLatency
    · rw [hlatency]
      exact h.extremes
    · rw [hlatency]
      exact h.books

/-- Any number of calls of the handler. -/
theorem received_deliver {host : ByteOrder} {before : List Fragment} {s : Subscriber}
    (fragments : List Fragment) (h : Received host before s) :
    Received host (before ++ fragments) (deliver host fragments s) := by
  induction fragments using List.reverseRecOn with
  | nil => simpa [deliver] using h
  | append_singleton fragments f ih =>
    rw [← List.append_assoc, deliver, List.foldl_append]
    exact received_process f ih

/-- One turn of the receive loop: the books follow the fragments of the poll. -/
theorem received_pollIteration {host : ByteOrder} {before : List Fragment} {s : Subscriber}
    (poll : Poll) (h : Received host before s) :
    Received host (before ++ poll.fragments) (pollIteration host poll s) := by
  have hcounted : Received host before
      { s with stats := { s.stats with
          pollingIterations := s.stats.pollingIterations + 1 } } :=
    ⟨h.recorded, h.messagesReceived, h.bytesReceived, h.fragmentsReceived, h.totalLatency,
      h.extremes, h.books⟩
  have hdelivered := received_deliver poll.fragments hcounted
  exact ⟨hdelivered.recorded, hdelivered.messagesReceived, hdelivered.bytesReceived,
    hdelivered.fragmentsReceived, hdelivered.totalLatency, hdelivered.extremes,
    hdelivered.books⟩

end AeronFast.SubscriberRuns
