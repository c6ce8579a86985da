import AeronFast.AssembledMessages

/-!
From the messages of the publisher through a term to the books of the
subscriber. The messages of one configuration claim equal parts of the term,
so that as many of them find a place as the term has such parts. If they fit
in the payload of a frame, the subscriber counts each of them once, and its
latencies are those of the messages in the order of the claims.
-/
namespace AeronFast.TermDelivery

open CommonTypes ByteBuffers BinaryMessage ConfigParser LabelledRuns Interleaving
open BinarySubscriber SubscriberRuns SubscriberBooks Fragmentation
open TermBuffer TermAppends TermReads FragmentAssembly AssembledMessages

section Uniform

variable {log : Log}

/-- Of messages that claim equal parts, as many find a place as the rest of the term has parts. -/
theorem placed_uniform {part : ℕ} (hpart : 0 < part) (tail : ℕ) (claimed : List (List UInt8))
    (huniform : ∀ m ∈ claimed, claimedLength log m = part) :
    placed log tail claimed = claimed.take ((log.termLength - tail) / part) := by
  induction claimed generalizing tail with
  | nil => simp [placed]
  | cons message rest ih =>
    obtain ⟨hmessage, hrest⟩ := List.forall_mem_cons.mp huniform
    have hnext := ih (tail + part) hrest
    rw [placed, hmessage]
    by_cases hfit : min tail log.termLength + part ≤ log.termLength
    · have hcount : (log.termLength - tail) / part =
          (log.termLength - (tail + part)) / part + 1 := by
        rw [Nat.div_eq_sub_div hpart (by omega), Nat.sub_sub]
      rw [if_pos hfit, hnext, hcount, List.take_succ_cons]
    · have hnone : (log.termLength - tail) / part = 0 := Nat.div_eq_of_lt (by omega)
      have hnoneLater : (log.termLength - (tail + part)) / part = 0 :=
        Nat.div_eq_of_lt (by omega)
      rw [if_neg hfit, hnext, hnone, hnoneLater, List.take_zero, List.take_zero]

/-- Messages that fit in a payload come in one piece. -/
theorem flatMap_pieces (payload : ℕ) (messages : List (List UInt8))
    (hfit : ∀ m ∈ messages, 0 < m.length ∧ m.length ≤ payload) :
    messages.flatMap (pieces payload) = messages := by
  induction messages with
  | nil => rfl
  | cons message rest ih =>
    obtain ⟨⟨hpos, hle⟩, hrest⟩ := List.forall_mem_cons.mp hfit
    have hne : message ≠ [] := List.length_pos_iff.mp hpos
    rw [List.flatMap_cons, ih hrest, pieces, if_neg hne, slices_whole payload message hpos hle]
    rfl

end Uniform

section Encoded

variable (host : ByteOrder) (size : ℕ)

/-- Handler calls with the encodings of some timestamps, in order. -/
def CarryTimestamps (fragments : List BinarySubscriber.Fragment) (times : List TimestampNs) :
    Prop :=
  fragments.map BinarySubscriber.Fragment.buffer <+: times.map (referenceEncoding size)

variable {fragments : List BinarySubscriber.Fragment} {times : List TimestampNs}

/-- Their latencies are the differences of the readings and the timestamps. -/
theorem latencies_carried (h : CarryTimestamps size fragments times) :
    fragments.map (fragmentLatency host) =
      List.zipWith (fun f t => f.clock - t) fragments times := by
  induction fragments generalizing times with
  | nil => rfl
  | cons f rest ih =>
    cases times with
    | nil => exact absurd h.length_le (by simp)
    | cons t later =>
      obtain ⟨hbuffer, hrest⟩ := List.cons_prefix_cons.mp h
      have hparse := parse_referenceEncoding host size t []
      rw [List.append_nil, ← hbuffer] at hparse
      rw [List.map_cons, List.zipWith_cons_cons, ih hrest, fragmentLatency, hparse]

theorem length_carried (hsize : minMessageSize ≤ size) (h : CarryTimestamps size fragments times)
    (f : BinarySubscriber.Fragment) (hf : f ∈ fragments) : f.buffer.length = size := by
  have hmem : f.buffer ∈ times.map (referenceEncoding size) :=
    h.subset (List.mem_map_of_mem hf)
  obtain ⟨t, -, ht⟩ := List.mem_map.mp hmem
  rw [← ht]
  exact referenceEncoding_length size t hsize

/-- What the books say after these calls. -/
theorem books_carried (hsize : minMessageSize ≤ size) (h : CarryTimestamps size fragments times)
    (hbytes : fragments.length * size < 18446744073709551616) {s : Subscriber}
    (hs : Received host fragments s) :
    s.stats.messagesReceived.toNat = fragments.length ∧
      s.stats.bytesReceived.toNat = fragments.length * size ∧
      s.recorded = List.zipWith (fun f t => f.clock - t) fragments times := by
  have hlength := length_carried size hsize h
  have hlatencies : latencies host fragments = fragments.map (fragmentLatency host) :=
    latencies_of_counted host fragments fun f hf => by
      rw [hlength f hf]
      exact hsize
  have hpos : 0 < size := Nat.lt_of_lt_of_le (by decide) hsize
  have hcount : fragments.length ≤ fragments.length * size := Nat.le_mul_of_pos_right _ hpos
  refine ⟨?_, ?_, ?_⟩
  · rw [hs.messagesReceived, hlatencies, List.length_map]
    exact Nat.mod_eq_of_lt (by omega)
  · rw [hs.bytesReceived, byteTotal_uniform fragments size hsize hlength]
    exact Nat.mod_eq_of_lt (by omega)
  · rw [hs.recorded, hlatencies, latencies_carried host size h]

end Encoded

/-- The messages of one configuration that find a place in an empty term. -/
def termCapacity (log : Log) (config : Config) : ℕ :=
  log.termLength / align (config.messageSize.toNat + headerLength)

section Delivery

variable {sender : ByteOrder} {config : Config} {log : Log} {deliveries : List Delivery}

theorem placed_deliveries (hvalid : validateConfig config = .success)
    (hfit : config.messageSize.toNat ≤ log.maxPayloadLength) :
    placed log 0 (deliveries.map (deliveredMessage sender config)) =
      (deliveries.take (termCapacity log config)).map (deliveredMessage sender config) := by
  have hpart : 0 < align (config.messageSize.toNat + headerLength) :=
    Nat.lt_of_lt_of_le (Nat.add_pos_right _ (by decide)) (le_align _)
  have huniform : ∀ m ∈ deliveries.map (deliveredMessage sender config),
      claimedLength log m = align (config.messageSize.toNat + headerLength) := by
    intro m hm
    obtain ⟨d, -, rfl⟩ := List.mem_map.mp hm
    rw [claimedLength, deliveredMessage_length sender config hvalid d, if_pos hfit]
  rw [placed_uniform hpart 0 _ huniform, Nat.sub_zero, List.map_take, termCapacity]

/-- The slices of the messages that find a place are the encodings of their timestamps. -/
theorem pieces_deliveries (hvalid : validateConfig config = .success)
    (hfit : config.messageSize.toNat ≤ log.maxPayloadLength) :
    (placed log 0 (deliveries.map (deliveredMessage sender config))).flatMap
        (pieces log.maxPayloadLength) =
      ((deliveries.map Delivery.timestamp).take (termCapacity log config)).map
        (referenceEncoding config.messageSize.toNat) := by
  have hsize : 8 ≤ config.messageSize.toNat := (validateConfig_success config hvalid).1
  rw [placed_deliveries hvalid hfit, flatMap_pieces, ← List.map_take, List.map_map]
  · refine List.map_congr_left fun d _ => ?_
    exact deliveredMessage_eq sender config hvalid d
  · intro m hm
    obtain ⟨d, -, rfl⟩ := List.mem_map.mp hm
    rw [deliveredMessage_length sender config hvalid d]
    exact ⟨by omega, hfit⟩

/-- The messages that find a place are shorter than the term. -/
theorem capacity_bytes (config : Config) (log : Log) :
    termCapacity log config * config.messageSize.toNat ≤ log.termLength := by
  have hpart : config.messageSize.toNat ≤ align (config.messageSize.toNat + headerLength) :=
    Nat.le_trans (Nat.le_add_right _ _) (le_align _)
  calc termCapacity log config * config.messageSize.toNat
      ≤ termCapacity log config * align (config.messageSize.toNat + headerLength) :=
        Nat.mul_le_mul_left _ hpart
    _ ≤ log.termLength := Nat.div_mul_le_self _ _

end Delivery

section Runs

variable {T : Type} [DecidableEq T] (sender receiver : ByteOrder) (config : Config) (log : Log)
variable (moves : List (Move T)) (s : System T) (deliveries : List Delivery)
variable (target : UInt64) (startTime : TimestampNs) (stopped : Bool)

/-- A subscriber whose handler is called with what an image reads, whatever the clock says at
each call, while any number of threads append messages of one configuration that fits in a
payload: it has counted every call as one message of the full size, with the latency against the
timestamp of the message of that place in the order of the claims; the calls are at most as many
as there were claims and parts of the term, and exactly as many once no append is under way and
the image finds nothing more. -/
theorem term_to_books (hvalid : validateConfig config = .success)
    (hfit : config.messageSize.toNat ≤ log.maxPayloadLength)
    (hrun : Run (SystemStep log) (startSystem log) moves s)
    (hclaimed : s.pool.shared.claimed = deliveries.map (deliveredMessage sender config))
    (hbound : total log s.pool.shared.claimed < 4294967296)
    (fragments : List BinarySubscriber.Fragment)
    (hcalls : fragments.map BinarySubscriber.Fragment.buffer =
      s.reader.handled.map TermBuffer.Fragment.payload) :
    let books := deliver receiver fragments (startSubscriber target startTime stopped)
    books.stats.messagesReceived.toNat = fragments.length ∧
      books.stats.bytesReceived.toNat = fragments.length * config.messageSize.toNat ∧
      books.recorded =
        List.zipWith (fun f d => f.clock - d.timestamp) fragments deliveries ∧
      fragments.length ≤ min deliveries.length (termCapacity log config) ∧
      (Quiescent s.pool → Drained log s →
        fragments.length = min deliveries.length (termCapacity log config)) := by
  intro books
  obtain ⟨hfirst, hall⟩ := frames_in_order log moves s hrun hbound
  have hviews : (views log (planned log s)).map TermBuffer.Fragment.payload =
      ((deliveries.map Delivery.timestamp).take (termCapacity log config)).map
        (referenceEncoding config.messageSize.toNat) := by
    rw [views, planned, ← views, plan_payloads, hclaimed, pieces_deliveries hvalid hfit]
  have hcarried : CarryTimestamps config.messageSize.toNat fragments
      ((deliveries.map Delivery.timestamp).take (termCapacity log config)) := by
    rw [CarryTimestamps, hcalls, ← hviews]
    exact hfirst.map _
  have hlength : fragments.length ≤ min deliveries.length (termCapacity log config) := by
    have hle := hcarried.length_le
    simp only [List.length_map, List.length_take] at hle
    omega
  have hterm := log.termLength_le
  have hbytes : fragments.length * config.messageSize.toNat ≤ log.termLength :=
    Nat.le_trans (Nat.mul_le_mul_right _ (Nat.le_trans hlength (Nat.min_le_right _ _)))
      (capacity_bytes config log)
  have hreceived : Received receiver fragments books :=
    received_deliver fragments (received_start receiver target startTime stopped)
  have hcarriedAll : CarryTimestamps config.messageSize.toNat fragments
      (deliveries.map Delivery.timestamp) :=
    hcarried.trans ((List.take_prefix _ _).map _)
  obtain ⟨hmessages, hsum, hrecorded⟩ := books_carried receiver config.messageSize.toNat
    (validateConfig_success config hvalid).1 hcarriedAll (by omega) hreceived
  refine ⟨hmessages, hsum, ?_, hlength, fun hquiet hdrained => ?_⟩
  · rw [hrecorded, List.zipWith_map_right]
  · have hcount := congrArg List.length hcalls
    rw [hall hquiet hdrained] at hcount
    have hexact := congrArg List.length hviews
    simp only [views, List.length_map, List.length_take] at hcount hexact
    omega

end Runs

def pairConfig : Config := sizedConfig 16 2 defaultTargetMessageCount

/-- Two messages by the times at which they are stamped. -/
def stampedPair : List Delivery :=
  [⟨fun _ => 0, 1000, fun _ => 0⟩, ⟨fun _ => 0, 2000, fun _ => 0⟩]

def stampedMessage (timestamp : TimestampNs) : List UInt8 :=
  deliveredMessage .little pairConfig ⟨fun _ => 0, timestamp, fun _ => 0⟩

/-- The first message claims its place first and is published last. -/
def pairAppends : List (Move Bool) :=
  List.flatten
    [[.append (.start true (stampedMessage 1000)), .append (.start false (stampedMessage 2000))],
      advances true 1, advances false 12, advances true 11, [.poll 10], reads 5]

theorem pairAppends_books :
    ∃ s, Run (SystemStep smallLog) (startSystem smallLog) pairAppends s ∧
      let books := deliver .big [⟨stampedMessage 1000, 5000⟩, ⟨stampedMessage 2000, 7000⟩]
        (startSubscriber 2 0 false)
      books.stats.messagesReceived.toNat = 2 ∧ books.stats.bytesReceived.toNat = 32 ∧
        books.recorded = [4000, 5000] := by
  obtain ⟨s, hrun, htest⟩ := exists_run_of_moves smallLog pairAppends
    (fun s => s.pool.shared.claimed = [stampedMessage 1000, stampedMessage 2000] &&
      s.reader.handled.map TermBuffer.Fragment.payload =
        [stampedMessage 1000, stampedMessage 2000]) (by decide +kernel)
  simp only [Bool.and_eq_true, decide_eq_true_eq] at htest
  obtain ⟨hclaimed, hhandled⟩ := htest
  have hbound : total smallLog s.pool.shared.claimed < 4294967296 := by
    rw [hclaimed]
    decide +kernel
  obtain ⟨hmessages, hbytes, hrecorded, -⟩ := term_to_books .little .big pairConfig smallLog
    pairAppends s stampedPair 2 0 false (by decide) (by decide) hrun hclaimed hbound
    [⟨stampedMessage 1000, 5000⟩, ⟨stampedMessage 2000, 7000⟩] hhandled.symm
  exact ⟨s, hrun, hmessages, hbytes, hrecorded⟩

end AeronFast.TermDelivery
