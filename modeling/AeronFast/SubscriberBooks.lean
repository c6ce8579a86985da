import AeronFast.SubscriberRuns

/-!
The subscriber's two sets of books and its latency figures. Handler calls and
interval reports may come in any order: the plain fields and the statistics
object always agree. The latencies themselves are differences of two clocks
in 64-bit words, exact as long as no sender is ahead of the receiver and the
sum of the true latencies fits in a word.
-/
namespace AeronFast.SubscriberBooks

open CommonTypes ByteBuffers BinaryMessage WordArithmetic Recorders BinarySubscriber SubscriberRuns

inductive BookEvent
  | fragment (f : Fragment)
  | report (now : TimestampNs)

def applyEvent (host : ByteOrder) (s : Subscriber) : BookEvent → Subscriber
  | .fragment f => processMessageFragment host f s
  | .report now => { s with stats := (printRealtimeStats s.stats now).1 }

def fragmentOf : BookEvent → Option Fragment
  | .fragment f => some f
  | .report _ => none

/-- The fragments among the events, oldest first. -/
def fragmentsOf (events : List BookEvent) : List Fragment := events.filterMap fragmentOf

def runEvents (host : ByteOrder) (s : Subscriber) (events : List BookEvent) : Subscriber :=
  events.foldl (applyEvent host) s

/-- A report begins a new interval and leaves the books alone. -/
theorem received_report {host : ByteOrder} {fragments : List Fragment} {s : Subscriber}
    (now : TimestampNs) (h : Received host fragments s) :
    Received host fragments (applyEvent host s (.report now)) :=
  ⟨h.recorded, h.messagesReceived, h.bytesReceived, h.fragmentsReceived, h.totalLatency,
    h.extremes, h.books⟩

theorem received_events (host : ByteOrder) (s : Subscriber) (hs : Received host [] s)
    (events : List BookEvent) : Received host (fragmentsOf events) (runEvents host s events) := by
  induction events using List.reverseRecOn with
  | nil => exact hs
  | append_singleton events e ih =>
    rw [runEvents, List.foldl_append, fragmentsOf, List.filterMap_append]
    cases e with
    | fragment f => exact received_process f ih
    | report now =>
      simp only [List.filterMap_cons, fragmentOf, List.filterMap_nil, List.append_nil]
      exact received_report now ih

/-- Each counted fragment brings at least the bytes of its timestamp. -/
theorem eight_mul_le_byteTotal (host : ByteOrder) (fragments : List Fragment) :
    8 * (latencies host fragments).length ≤ byteTotal fragments := by
  induction fragments using List.reverseRecOn with
  | nil => exact Nat.le_refl _
  | append_singleton fragments f ih =>
    cases hf : counted f with
    | true =>
      have hlength : 8 ≤ f.buffer.length := of_decide_eq_true hf
      rw [latencies_snoc_counted host fragments f hf, byteTotal_snoc_counted fragments f hf,
        List.length_append, List.length_singleton]
      omega
    | false =>
      rw [latencies_snoc_short host fragments f hf, byteTotal_snoc_short fragments f hf]
      exact ih

/-- The plain fields and the statistics object hold the same figures. The buckets add up to
the message count in words, and exactly while the counted bytes fit in a word. -/
def BooksAgree (bytes : ℕ) (s : Subscriber) : Prop :=
  ∃ q, s.stats.latencyStats = some q ∧ s.stats.messagesReceived = q.messageCount ∧
    (∑ i, (q.latencyBuckets i).toNat) % 2 ^ 64 = q.messageCount.toNat ∧
    s.stats.totalLatency = q.totalLatency ∧ s.stats.minLatency = q.minLatency ∧
    s.stats.maxLatency = q.maxLatency ∧
    (bytes < 2 ^ 64 → (∑ i, (q.latencyBuckets i).toNat) = q.messageCount.toNat ∧
      8 * s.stats.messagesReceived.toNat ≤ s.stats.bytesReceived.toNat)

/-- After any sequence of handler calls and interval reports the two sets of books agree,
and a fragment without a timestamp changes nothing. -/
theorem books_agree (host : ByteOrder) (target : UInt64) (startTime : TimestampNs)
    (stopped : Bool) (events : List BookEvent) :
    BooksAgree (byteTotal (fragmentsOf events))
        (runEvents host (startSubscriber target startTime stopped) events) ∧
      ∀ f : Fragment, f.buffer.length < timestampSize →
        processMessageFragment host f
            (runEvents host (startSubscriber target startTime stopped) events) =
          runEvents host (startSubscriber target startTime stopped) events := by
  have h := received_events host _ (received_start host target startTime stopped) events
  obtain ⟨q, hq, ⟨hcount, htotal, hmin, hmax⟩, _, htally, hexact⟩ := h.books
  constructor
  · refine ⟨q, hq, hcount.symm, ?_, htotal.symm, hmin.symm, hmax.symm, ?_⟩
    · rw [hcount]
      exact htally
    · intro hbytes
      have height := eight_mul_le_byteTotal host (fragmentsOf events)
      have hreceived := h.messagesReceived
      rw [Nat.mod_eq_of_lt (by omega)] at hreceived
      constructor
      · rw [hcount, hreceived]
        exact hexact (by omega)
      · rw [h.bytesReceived, hreceived, Nat.mod_eq_of_lt hbytes]
        exact height
  · intro f hf
    exact if_pos hf

section Latency

variable (host : ByteOrder)

/-- The recorded latencies, their total and the printed figures are those of exact arithmetic. -/
structure LatencyExact (fragments : List Fragment) (s : Subscriber) : Prop where
  noWrap : ∀ (k : ℕ) (l : UInt64) (f : Fragment), s.recorded[k]? = some l →
    fragments[k]? = some f → l ≤ f.clock
  total : s.stats.totalLatency.toNat = wordSum s.recorded
  average : ∀ r, (printFinalStats s.stats).latency = some r →
    r.minLatency ≤ r.avgLatency ∧ r.avgLatency ≤ r.maxLatency

/-- The sender's timestamp is not later than the receive reading. -/
def SentBefore (f : Fragment) : Prop :=
  parseBinaryMessageTimestamp host f.buffer ≤ f.clock

/-- The true latency, over unbounded naturals. -/
def trueLatency (f : Fragment) : ℕ :=
  f.clock.toNat - (parseBinaryMessageTimestamp host f.buffer).toNat

theorem fragmentLatency_le_iff (f : Fragment) :
    fragmentLatency host f ≤ f.clock ↔ SentBefore host f := by
  rw [UInt64.le_iff_toNat_le, SentBefore, UInt64.le_iff_toNat_le]
  exact toNat_sub_le_iff f.clock _

theorem wordSum_eq_true (fragments : List Fragment) (h : ∀ f ∈ fragments, SentBefore host f) :
    wordSum (fragments.map (fragmentLatency host)) = (fragments.map (trueLatency host)).sum := by
  induction fragments with
  | nil => rfl
  | cons f rest ih =>
    have hf : (fragmentLatency host f).toNat = trueLatency host f :=
      UInt64.toNat_sub_of_le f.clock _ (h f (by simp))
    have hrest := ih (fun g hg => h g (by simp [hg]))
    simp only [wordSum, List.map_cons, List.sum_cons] at hrest ⊢
    rw [hf, hrest]

omit host in
theorem filter_counted (fragments : List Fragment)
    (h : ∀ f ∈ fragments, timestampSize ≤ f.buffer.length) :
    fragments.filter counted = fragments := by
  apply List.filter_eq_self.mpr
  intro f hf
  exact decide_eq_true (h f hf)

theorem latencies_of_counted (fragments : List Fragment)
    (h : ∀ f ∈ fragments, timestampSize ≤ f.buffer.length) :
    latencies host fragments = fragments.map (fragmentLatency host) := by
  rw [latencies, filter_counted fragments h]

omit host in
/-- Fragments of one size bring as many times that size. -/
theorem byteTotal_uniform (fragments : List Fragment) (size : ℕ) (hsize : timestampSize ≤ size)
    (h : ∀ f ∈ fragments, f.buffer.length = size) :
    byteTotal fragments = fragments.length * size := by
  have hcounted : ∀ f ∈ fragments, timestampSize ≤ f.buffer.length := by
    intro f hf
    rw [h f hf]
    exact hsize
  have hall : ∀ n ∈ fragments.map (fun f => f.buffer.length), n = size := by
    intro n hn
    obtain ⟨f, hf, rfl⟩ := List.mem_map.mp hn
    exact h f hf
  rw [byteTotal, filter_counted fragments hcounted, List.sum_eq_card_nsmul _ size hall,
    List.length_map, smul_eq_mul]

theorem latencyExact_of_received (fragments : List Fragment) (s : Subscriber)
    (hlength : ∀ f ∈ fragments, timestampSize ≤ f.buffer.length)
    (hsent : ∀ f ∈ fragments, SentBefore host f)
    (hsum : (fragments.map (trueLatency host)).sum < 2 ^ 64)
    (hcount : fragments.length < 2 ^ 64) (hs : Received host fragments s) :
    LatencyExact fragments s := by
  have hlatencies := latencies_of_counted host fragments hlength
  have hwords := wordSum_eq_true host fragments hsent
  have htotal : s.stats.totalLatency.toNat = wordSum s.recorded := by
    rw [hs.totalLatency, hs.recorded, hlatencies, hwords, Nat.mod_eq_of_lt hsum]
  have hreceived : s.stats.messagesReceived.toNat = s.recorded.length := by
    rw [hs.messagesReceived, hs.recorded, hlatencies, List.length_map, Nat.mod_eq_of_lt hcount]
  have hextremes := hs.extremes
  rw [← hs.recorded] at hextremes
  refine ⟨?_, htotal, ?_⟩
  · intro k l f hl hf
    rw [hs.recorded, hlatencies, List.getElem?_map, hf] at hl
    have hl' : fragmentLatency host f = l := by simpa using hl
    rw [← hl']
    exact (fragmentLatency_le_iff host f).mpr (hsent f (List.mem_of_getElem? hf))
  · intro r hr
    simp only [printFinalStats] at hr
    split at hr
    · rename_i hpos
      have hne : 0 < s.recorded.length := by
        have hpos' := UInt64.lt_iff_toNat_lt.mp hpos
        rw [hreceived] at hpos'
        exact hpos'
      obtain ⟨hlow, hhigh⟩ := average_between hne hextremes.low_le hextremes.le_high
      have hr' := Option.some.inj hr
      rw [← hr', UInt64.le_iff_toNat_le, UInt64.le_iff_toNat_le, UInt64.toNat_div, htotal,
        hreceived]
      exact ⟨hlow, hhigh⟩
    · cases hr

variable (target : UInt64) (startTime : TimestampNs) (stopped : Bool)

theorem received_prefix (fragments : List Fragment) (k : ℕ) :
    Received host (fragments.take k)
      (deliver host (fragments.take k) (startSubscriber target startTime stopped)) := by
  have h := received_deliver (fragments.take k) (received_start host target startTime stopped)
  simpa only [List.nil_append] using h

/-- In every run whose senders are never ahead of the receiver, whose true latencies sum to
less than 2^64 and that has fewer than 2^64 fragments, the latency figures are exact after
every fragment; and they are so only if the first two conditions hold. -/
theorem latency_figures_exact (fragments : List Fragment)
    (hlength : ∀ f ∈ fragments, timestampSize ≤ f.buffer.length) :
    (((∀ f ∈ fragments, SentBefore host f) ∧ (fragments.map (trueLatency host)).sum < 2 ^ 64 ∧
        fragments.length < 2 ^ 64) →
      ∀ k, LatencyExact (fragments.take k)
        (deliver host (fragments.take k) (startSubscriber target startTime stopped))) ∧
    ((∀ k, LatencyExact (fragments.take k)
        (deliver host (fragments.take k) (startSubscriber target startTime stopped))) →
      (∀ f ∈ fragments, SentBefore host f) ∧
        (fragments.map (trueLatency host)).sum < 2 ^ 64) := by
  constructor
  · intro h k
    obtain ⟨hsent, hsum, hcount⟩ := h
    have hprefix : ((fragments.take k).map (trueLatency host)).sum ≤
        (fragments.map (trueLatency host)).sum := by
      have hsplit := congrArg (fun l => (l.map (trueLatency host)).sum)
        (List.take_append_drop k fragments)
      simp only [List.map_append, List.sum_append] at hsplit
      omega
    apply latencyExact_of_received host
    · intro f hf
      exact hlength f (List.mem_of_mem_take hf)
    · intro f hf
      exact hsent f (List.mem_of_mem_take hf)
    · omega
    · rw [List.length_take]
      omega
    · exact received_prefix host target startTime stopped fragments k
  · intro h
    have hall := h fragments.length
    have hs := received_prefix host target startTime stopped fragments fragments.length
    rw [List.take_length] at hall hs
    have hlatencies := latencies_of_counted host fragments hlength
    have hsent : ∀ f ∈ fragments, SentBefore host f := by
      intro f hf
      obtain ⟨k, hk⟩ := List.mem_iff_getElem?.mp hf
      apply (fragmentLatency_le_iff host f).mp
      apply hall.noWrap k _ f _ hk
      rw [hs.recorded, hlatencies, List.getElem?_map, hk]
      rfl
    refine ⟨hsent, ?_⟩
    have htotal := hall.total
    have hlt := word_lt (deliver host fragments
      (startSubscriber target startTime stopped)).stats.totalLatency
    rw [← wordSum_eq_true host fragments hsent, ← hlatencies, ← hs.recorded, ← htotal]
    exact hlt

end Latency

/-- A message whose sender is one nanosecond ahead of the receiver. -/
def aheadFragment : Fragment := ⟨referenceEncoding 16 1001, 1000⟩

theorem aheadFragment_recorded :
    (deliver .little [aheadFragment] (startSubscriber 2 0 false)).recorded = [uint64Max] := by
  have hs := received_prefix .little 2 0 false [aheadFragment] 1
  have hlatency : fragmentLatency .little aheadFragment = uint64Max := by
    have hparse := parse_referenceEncoding .little 16 1001 []
    rw [List.append_nil] at hparse
    rw [fragmentLatency, aheadFragment, hparse]
    rfl
  have hrecorded := hs.recorded
  rw [List.take_succ_cons, List.take_zero] at hrecorded
  rw [hrecorded, latencies_of_counted .little _ (by decide)]
  simp [hlatency]

/-- Its recorded latency exceeds the reading it was computed from. -/
theorem aheadFragment_not_exact :
    timestampSize ≤ aheadFragment.buffer.length ∧
      ¬ LatencyExact [aheadFragment]
        (deliver .little [aheadFragment] (startSubscriber 2 0 false)) := by
  refine ⟨by decide, ?_⟩
  intro h
  have hle := h.noWrap 0 uint64Max aheadFragment (by rw [aheadFragment_recorded]; rfl) rfl
  exact absurd hle (by decide)

/-- Two messages from a sender whose clock is behind the receiver's. -/
theorem behind_exact :
    LatencyExact [⟨referenceEncoding 16 7, 10⟩, ⟨referenceEncoding 16 8, 20⟩]
      (deliver .little [⟨referenceEncoding 16 7, 10⟩, ⟨referenceEncoding 16 8, 20⟩]
        (startSubscriber 2 0 false)) :=
  (latency_figures_exact .little 2 0 false
    [⟨referenceEncoding 16 7, 10⟩, ⟨referenceEncoding 16 8, 20⟩] (by decide)).1
    (by
      unfold SentBefore
      decide) 2

end AeronFast.SubscriberBooks
