import AeronFast.SubscriberBooks

/-!
Messages longer than the maximum payload. Aeron hands a message over in slices
of the payload size, one handler call a slice, and the subscriber polls
without an assembler. Each slice that is long enough for a timestamp is then
counted as a message of its own, so the books are those of the messages
precisely when no message was split.
-/
namespace AeronFast.Fragmentation

open CommonTypes ByteBuffers BinaryMessage ConfigParser WordArithmetic
open BinarySubscriber SubscriberRuns SubscriberBooks

/-- The consecutive slices of a message, all but the last of the payload size. -/
def slices (payload : ℕ) (message : List UInt8) : List (List UInt8) :=
  (List.range ((message.length + payload - 1) / payload)).map
    (fun i => (message.drop (i * payload)).take payload)

theorem slices_length (payload : ℕ) (message : List UInt8) :
    (slices payload message).length = (message.length + payload - 1) / payload := by
  simp [slices]

theorem flatten_slices_prefix (payload : ℕ) (message : List UInt8) (n : ℕ) :
    ((List.range n).map (fun i => (message.drop (i * payload)).take payload)).flatten =
      message.take (n * payload) := by
  induction n with
  | zero => simp
  | succ n ih =>
    rw [List.range_succ, List.map_append, List.flatten_append, ih, Nat.succ_mul, List.take_add]
    simp

/-- Put together, the slices are the message. -/
theorem slices_flatten (payload : ℕ) (hpayload : 0 < payload) (message : List UInt8) :
    (slices payload message).flatten = message := by
  rw [slices, flatten_slices_prefix]
  apply List.take_of_length_le
  have hdiv := Nat.div_add_mod (message.length + payload - 1) payload
  have hmod := Nat.mod_lt (message.length + payload - 1) hpayload
  rw [Nat.mul_comm] at hdiv
  omega

/-- A message that fits in the payload arrives whole. -/
theorem slices_whole (payload : ℕ) (message : List UInt8) (hne : 0 < message.length)
    (hfit : message.length ≤ payload) : slices payload message = [message] := by
  have hone : (message.length + payload - 1) / payload = 1 := by
    apply (Nat.div_eq_iff (by omega)).mpr
    omega
  rw [slices, hone]
  simp [List.take_of_length_le hfit]

/-- One message on its way: what the send buffer held before it was encoded, its timestamp
and the clock reading taken when slice `j` of it is handled. -/
structure Delivery where
  held : ℕ → UInt8
  timestamp : TimestampNs
  clock : ℕ → TimestampNs

section Split

variable (sender : ByteOrder) (config : Config) (payload : ℕ)

def deliveredMessage (d : Delivery) : List UInt8 :=
  createBinaryMessage sender ((List.range config.messageSize.toNat).map d.held)
    config.messageSize d.timestamp

/-- The handler calls for one message. -/
def sliceFragments (d : Delivery) : List Fragment :=
  (slices payload (deliveredMessage sender config d)).mapIdx
    (fun j piece => ⟨piece, d.clock j⟩)

def allFragments (deliveries : List Delivery) : List Fragment :=
  deliveries.flatMap (sliceFragments sender config payload)

/-- The books of a subscriber that counts messages: as many as were sent, with all their bytes,
and one latency each, against a reading taken while that message was delivered. -/
structure CountsMessages (deliveries : List Delivery) (s : Subscriber) : Prop where
  messagesReceived : s.stats.messagesReceived.toNat = deliveries.length
  bytesReceived : s.stats.bytesReceived.toNat = deliveries.length * config.messageSize.toNat
  fragmentsReceived : s.stats.fragmentsReceived.toNat =
    (allFragments sender config payload deliveries).length
  recordedLength : s.recorded.length = deliveries.length
  recorded : ∀ (k : ℕ) (d : Delivery), deliveries[k]? = some d →
    ∃ j, j < (sliceFragments sender config payload d).length ∧
      s.recorded[k]? = some (d.clock j - d.timestamp)

variable (hvalid : validateConfig config = .success)
include hvalid

theorem deliveredMessage_eq (d : Delivery) :
    deliveredMessage sender config d =
      referenceEncoding config.messageSize.toNat d.timestamp :=
  createBinaryMessage_eq sender _ config.messageSize d.timestamp (by simp)
    (validateConfig_success config hvalid).1

theorem deliveredMessage_length (d : Delivery) :
    (deliveredMessage sender config d).length = config.messageSize.toNat := by
  rw [deliveredMessage_eq sender config hvalid d]
  exact referenceEncoding_length _ _ (validateConfig_success config hvalid).1

theorem sliceFragments_length (d : Delivery) :
    (sliceFragments sender config payload d).length =
      (config.messageSize.toNat + payload - 1) / payload := by
  rw [sliceFragments, List.length_mapIdx, slices_length,
    deliveredMessage_length sender config hvalid d]

theorem allFragments_length (deliveries : List Delivery) :
    (allFragments sender config payload deliveries).length =
      deliveries.length * ((config.messageSize.toNat + payload - 1) / payload) := by
  induction deliveries with
  | nil => simp [allFragments]
  | cons d rest ih =>
    rw [allFragments, List.flatMap_cons, List.length_append,
      sliceFragments_length sender config payload hvalid d, List.length_cons, Nat.succ_mul]
    rw [allFragments] at ih
    omega

/-- The single handler call of a message that fits. -/
theorem sliceFragments_whole (d : Delivery) (hfit : config.messageSize.toNat ≤ payload) :
    sliceFragments sender config payload d =
      [⟨referenceEncoding config.messageSize.toNat d.timestamp, d.clock 0⟩] := by
  have hsize : 8 ≤ config.messageSize.toNat := (validateConfig_success config hvalid).1
  have hlength := deliveredMessage_length sender config hvalid d
  rw [sliceFragments, slices_whole payload _ (by omega) (by omega),
    deliveredMessage_eq sender config hvalid d]
  rfl

theorem allFragments_whole (deliveries : List Delivery)
    (hfit : deliveries = [] ∨ config.messageSize.toNat ≤ payload) :
    allFragments sender config payload deliveries = deliveries.map (fun d =>
      ⟨referenceEncoding config.messageSize.toNat d.timestamp, d.clock 0⟩) := by
  rcases hfit with rfl | hfit
  · rfl
  · rw [allFragments, List.map_eq_flatMap]
    congr 1
    funext d
    exact sliceFragments_whole sender config payload hvalid d hfit

end Split

section Whole

variable (host : ByteOrder) (size : ℕ) (hsize : minMessageSize ≤ size)
include hsize

theorem latencies_whole (deliveries : List Delivery) :
    latencies host (deliveries.map (fun d => ⟨referenceEncoding size d.timestamp, d.clock 0⟩)) =
      deliveries.map (fun d => d.clock 0 - d.timestamp) := by
  rw [latencies_of_counted, List.map_map]
  · apply List.map_congr_left
    intro d _
    have hparse := parse_referenceEncoding host size d.timestamp []
    rw [List.append_nil] at hparse
    simp only [Function.comp, fragmentLatency, hparse]
  · intro f hf
    obtain ⟨d, _, rfl⟩ := List.mem_map.mp hf
    rw [referenceEncoding_length size d.timestamp hsize]
    exact hsize

theorem byteTotal_whole (deliveries : List Delivery) :
    byteTotal (deliveries.map (fun d => ⟨referenceEncoding size d.timestamp, d.clock 0⟩)) =
      deliveries.length * size := by
  rw [byteTotal_uniform _ size hsize, List.length_map]
  intro f hf
  obtain ⟨d, _, rfl⟩ := List.mem_map.mp hf
  exact referenceEncoding_length size d.timestamp hsize

end Whole

section Exactness

variable (sender receiver : ByteOrder) (config : Config) (payload : ℕ)
variable (target : UInt64) (startTime : TimestampNs) (stopped : Bool)

theorem countsMessages_of_whole (hvalid : validateConfig config = .success)
    (deliveries : List Delivery) (s : Subscriber)
    (hs : Received receiver (allFragments sender config payload deliveries) s)
    (hfit : deliveries = [] ∨ config.messageSize.toNat ≤ payload)
    (hbytes : deliveries.length * config.messageSize.toNat < 2 ^ 64) :
    CountsMessages sender config payload deliveries s := by
  have hsize := (validateConfig_success config hvalid).1
  have hwhole := allFragments_whole sender config payload hvalid deliveries hfit
  have hcount : deliveries.length < 2 ^ 64 := by
    have hpos : 0 < config.messageSize.toNat := Nat.lt_of_lt_of_le (by decide) hsize
    exact Nat.lt_of_le_of_lt (Nat.le_mul_of_pos_right _ hpos) hbytes
  have hrecorded : s.recorded = deliveries.map (fun d => d.clock 0 - d.timestamp) := by
    rw [hs.recorded, hwhole, latencies_whole receiver _ hsize]
  have hmessages : s.stats.messagesReceived.toNat = deliveries.length := by
    rw [hs.messagesReceived, ← hs.recorded, hrecorded, List.length_map, Nat.mod_eq_of_lt hcount]
  refine ⟨hmessages, ?_, ?_, ?_, ?_⟩
  · rw [hs.bytesReceived, hwhole, byteTotal_whole _ hsize, Nat.mod_eq_of_lt hbytes]
  · rw [hs.fragmentsReceived, hmessages, hwhole, List.length_map]
  · rw [hrecorded, List.length_map]
  · intro k d hd
    have hmem := List.mem_of_getElem? hd
    have hfit' : config.messageSize.toNat ≤ payload := by
      rcases hfit with rfl | hfit
      · simp at hmem
      · exact hfit
    refine ⟨0, ?_, ?_⟩
    · rw [sliceFragments_whole sender config payload hvalid d hfit']
      exact Nat.zero_lt_one
    · rw [hrecorded, List.getElem?_map, hd]
      rfl

/-- The handler counts a fragment and a message together, so a split message shows. -/
theorem whole_of_countsMessages (hvalid : validateConfig config = .success)
    (hpayload : timestampSize ≤ payload) (deliveries : List Delivery) (s : Subscriber)
    (hs : Received receiver (allFragments sender config payload deliveries) s)
    (h : CountsMessages sender config payload deliveries s) :
    (deliveries = [] ∨ config.messageSize.toNat ≤ payload) ∧
      deliveries.length * config.messageSize.toNat < 2 ^ 64 := by
  constructor
  · have hpositive : 0 < payload := Nat.lt_of_lt_of_le (by decide) hpayload
    have hfragments := h.fragmentsReceived
    rw [hs.fragmentsReceived, h.messagesReceived,
      allFragments_length sender config payload hvalid] at hfragments
    by_cases hempty : deliveries = []
    · exact Or.inl hempty
    · right
      have hlength : 0 < deliveries.length := List.length_pos_iff.mpr hempty
      have hone : (config.messageSize.toNat + payload - 1) / payload = 1 :=
        Nat.eq_of_mul_eq_mul_left hlength (by omega)
      have hbounds := (Nat.div_eq_iff hpositive).mp hone
      omega
  · rw [← h.bytesReceived]
    exact word_lt _

/-- Handed all slices of a list of messages in order, the subscriber counts messages if and only
if none of them had to be split and their bytes fit in the counter. -/
theorem countsMessages_iff (hvalid : validateConfig config = .success)
    (hpayload : timestampSize ≤ payload) (deliveries : List Delivery) :
    CountsMessages sender config payload deliveries
        (deliver receiver (allFragments sender config payload deliveries)
          (startSubscriber target startTime stopped)) ↔
      (deliveries = [] ∨ config.messageSize.toNat ≤ payload) ∧
        deliveries.length * config.messageSize.toNat < 2 ^ 64 := by
  have hs := received_deliver (allFragments sender config payload deliveries)
    (received_start receiver target startTime stopped)
  rw [List.nil_append] at hs
  constructor
  · exact whole_of_countsMessages sender receiver config payload hvalid hpayload deliveries _ hs
  · intro h
    exact countsMessages_of_whole sender receiver config payload hvalid deliveries _ hs h.1 h.2

end Exactness

/-- A message sent and received at time zero through an empty buffer. -/
def promptDelivery : Delivery := ⟨fun _ => 0, 0, fun _ => 0⟩

/-- One message of the README's large size, over a payload of 1024 bytes, is not counted as
one message. -/
theorem largeMessage_not_countsMessages :
    parsePublisherArgs blankConfig none [('s', "65536".toList), ('c', "1000000".toList)] =
        .ok (sizedConfig 65536 1000000 defaultTargetMessageCount) ∧
      ¬ CountsMessages .little (sizedConfig 65536 1000000 defaultTargetMessageCount) 1024
        [promptDelivery]
        (deliver .little
          (allFragments .little (sizedConfig 65536 1000000 defaultTargetMessageCount) 1024
            [promptDelivery])
          (startSubscriber 1000000 0 false)) := by
  refine ⟨rfl, ?_⟩
  intro h
  have hs := received_deliver
    (allFragments .little (sizedConfig 65536 1000000 defaultTargetMessageCount) 1024
      [promptDelivery]) (received_start .little 1000000 0 false)
  rw [List.nil_append] at hs
  have hwhole := whole_of_countsMessages .little .little _ 1024 (by decide) (by decide) _ _ hs h
  rcases hwhole.1 with hnil | hfit
  · simp at hnil
  · exact absurd hfit (by decide)

/-- Two messages that fit in the payload. -/
theorem twoMessages_countsMessages :
    CountsMessages .little (sizedConfig 16 2 defaultTargetMessageCount) 1024
      [promptDelivery, promptDelivery]
      (deliver .little
        (allFragments .little (sizedConfig 16 2 defaultTargetMessageCount) 1024
          [promptDelivery, promptDelivery])
        (startSubscriber 2 0 false)) :=
  (countsMessages_iff .little .little (sizedConfig 16 2 defaultTargetMessageCount) 1024 2 0 false
    (by decide) (by decide) [promptDelivery, promptDelivery]).mpr
    ⟨Or.inr (by decide), by decide⟩

end AeronFast.Fragmentation
