import AeronFast.ByteBuffers
import AeronFast.CommonTypes

/-!
The wire format of `binary_message.c`: eight big-endian timestamp bytes, then
filler. The encoder and the decoder run on hosts of any byte order; `htobe64`,
`be64toh` and the copies between a word and the buffer are taken apart so that
the result can be seen not to depend on the host.
-/
namespace AeronFast.BinaryMessage

open CommonTypes ByteBuffers

def htobe64 (host : ByteOrder) (x : UInt64) : UInt64 :=
  UInt64.ofNat (host.toBigEndian 8 x.toNat)

def be64toh (host : ByteOrder) (x : UInt64) : UInt64 :=
  UInt64.ofNat (host.toBigEndian 8 x.toNat)

/-- `memcpy(buffer, &word, sizeof(uint64_t))` -/
def storeWord (host : ByteOrder) (buffer : List UInt8) (word : UInt64) : List UInt8 :=
  host.image 8 word.toNat ++ buffer.drop 8

/-- `memcpy(&word, buffer, sizeof(uint64_t))` -/
def loadWord (host : ByteOrder) (buffer : List UInt8) : UInt64 :=
  UInt64.ofNat (host.load (buffer.take 8))

def createBinaryMessage (host : ByteOrder) (buffer : List UInt8) (bufferSize : UInt64)
    (timestamp : TimestampNs) : List UInt8 :=
  if bufferSize.toNat < minMessageSize then buffer
  else
    fillLoop (fun i => UInt8.ofNat ((i - 8) % 256)) 8 (bufferSize.toNat - 8)
      (storeWord host buffer (htobe64 host timestamp))

def parseBinaryMessageTimestamp (host : ByteOrder) (buffer : List UInt8) : TimestampNs :=
  be64toh host (loadWord host buffer)

/-- The message the format prescribes for a size and a timestamp. -/
def referenceEncoding (size : ℕ) (timestamp : TimestampNs) : List UInt8 :=
  beBytes 8 timestamp.toNat ++ (List.range (size - 8)).map (fun i => UInt8.ofNat (i % 256))

theorem word_bound (x : UInt64) : x.toNat < 256 ^ 8 := x.toNat_lt

theorem htobe64_toNat (host : ByteOrder) (x : UInt64) :
    (htobe64 host x).toNat = host.toBigEndian 8 x.toNat := by
  have h : host.toBigEndian 8 x.toNat < 2 ^ 64 :=
    host.toBigEndian_lt 8 x.toNat (word_bound x)
  rw [htobe64, UInt64.toNat_ofNat', Nat.mod_eq_of_lt h]

theorem storeWord_htobe64 (host : ByteOrder) (buffer : List UInt8) (x : UInt64) :
    storeWord host buffer (htobe64 host x) = beBytes 8 x.toNat ++ buffer.drop 8 := by
  rw [storeWord, htobe64_toNat, ByteOrder.image_toBigEndian]

@[simp] theorem referenceEncoding_length (size : ℕ) (t : TimestampNs)
    (hsize : minMessageSize ≤ size) : (referenceEncoding size t).length = size := by
  simp only [minMessageSize, timestampSize] at hsize
  simp only [referenceEncoding, List.length_append, beBytes_length, List.length_map,
    List.length_range]
  omega

/-- The encoder overwrites the whole buffer with the prescribed message. -/
theorem createBinaryMessage_eq (host : ByteOrder) (buffer : List UInt8) (bufferSize : UInt64)
    (t : TimestampNs) (hlength : buffer.length = bufferSize.toNat)
    (hsize : minMessageSize ≤ bufferSize.toNat) :
    createBinaryMessage host buffer bufferSize t = referenceEncoding bufferSize.toNat t := by
  have hmin : 8 ≤ bufferSize.toNat := hsize
  have hstored : (beBytes 8 t.toNat ++ buffer.drop 8).length = bufferSize.toNat := by
    simp only [List.length_append, beBytes_length, List.length_drop]
    omega
  rw [createBinaryMessage, if_neg (by omega), storeWord_htobe64]
  have hfill := fillLoop_to_end (fun i => UInt8.ofNat ((i - 8) % 256)) 8
    (beBytes 8 t.toNat ++ buffer.drop 8)
  rw [hstored] at hfill
  rw [hfill, List.take_left' (beBytes_length 8 t.toNat), referenceEncoding]
  congr 1
  rw [List.range'_eq_map_range, List.map_map]
  apply List.map_congr_left
  intro i _
  simp

/-- Decoding reads the first eight bytes in big-endian order, whatever the host. -/
theorem parseBinaryMessageTimestamp_eq (host : ByteOrder) (buffer : List UInt8)
    (hlength : timestampSize ≤ buffer.length) :
    parseBinaryMessageTimestamp host buffer = UInt64.ofNat (readBE (buffer.take 8)) := by
  have htake : (buffer.take 8).length = 8 := by
    simp only [timestampSize] at hlength
    simp only [List.length_take]
    omega
  have hload : host.load (buffer.take 8) < 2 ^ 64 := by
    cases host with
    | little => simpa [ByteOrder.load, htake] using readLE_lt (buffer.take 8)
    | big => simpa [ByteOrder.load, readBE, htake] using readLE_lt (buffer.take 8).reverse
  have hswap := host.toBigEndian_load (buffer.take 8)
  rw [htake] at hswap
  rw [parseBinaryMessageTimestamp, be64toh, loadWord, UInt64.toNat_ofNat',
    Nat.mod_eq_of_lt hload, hswap]

/-- A decoder on any host reads the timestamp that was encoded. -/
theorem parse_referenceEncoding (host : ByteOrder) (size : ℕ) (t : TimestampNs)
    (rest : List UInt8) :
    parseBinaryMessageTimestamp host (referenceEncoding size t ++ rest) = t := by
  have htake : (referenceEncoding size t ++ rest).take 8 = beBytes 8 t.toNat := by
    rw [referenceEncoding, List.append_assoc, List.take_left' (beBytes_length 8 t.toNat)]
  rw [parseBinaryMessageTimestamp_eq host _ (by simp [referenceEncoding, timestampSize]), htake,
    readBE_beBytes, Nat.mod_eq_of_lt (word_bound t)]
  exact UInt64.ofNat_toNat

/-- The bytes of a message one by one: the timestamp from its most significant byte on, then
filler that starts again every 256 bytes. -/
structure WireFormat (size : ℕ) (timestamp : TimestampNs) (message : List UInt8) : Prop where
  length : message.length = size
  timestamp : ∀ i, i < 8 →
    message[i]? = some (UInt8.ofNat (timestamp.toNat / 256 ^ (7 - i)))
  filler : ∀ i, 8 ≤ i → i < size → message[i]? = some (UInt8.ofNat ((i - 8) % 256))

theorem wireFormat_referenceEncoding (size : ℕ) (t : TimestampNs)
    (hsize : minMessageSize ≤ size) : WireFormat size t (referenceEncoding size t) where
  length := referenceEncoding_length size t hsize
  timestamp i hi := by
    rw [referenceEncoding, List.getElem?_append_left (by simpa using hi),
      beBytes_getElem? 8 t.toNat i hi]
  filler i hlow hhigh := by
    rw [referenceEncoding, List.getElem?_append_right (by simpa using hlow), beBytes_length,
      List.getElem?_map, List.getElem?_range (by omega)]
    rfl

/-- Whatever the buffer held and whatever the hosts, the encoder writes the prescribed bytes,
the decoder reads the timestamp back and different timestamps give different messages. A buffer
too small for a timestamp is left alone. -/
theorem wire_round_trip (buffer : List UInt8) (bufferSize : UInt64) (t : TimestampNs)
    (hlength : buffer.length = bufferSize.toNat) (sender : ByteOrder) :
    (8 ≤ bufferSize.toNat →
      WireFormat bufferSize.toNat t (createBinaryMessage sender buffer bufferSize t) ∧
      (∀ receiver, parseBinaryMessageTimestamp receiver
        (createBinaryMessage sender buffer bufferSize t) = t) ∧
      ∀ (other : ByteOrder) (prior : List UInt8), prior.length = bufferSize.toNat →
        createBinaryMessage other prior bufferSize t =
            createBinaryMessage sender buffer bufferSize t ∧
          ∀ t', t' ≠ t → createBinaryMessage other prior bufferSize t' ≠
            createBinaryMessage sender buffer bufferSize t) ∧
    (bufferSize.toNat < 8 → createBinaryMessage sender buffer bufferSize t = buffer) := by
  constructor
  · intro hsize
    have hencoded := createBinaryMessage_eq sender buffer bufferSize t hlength hsize
    have hparse (receiver : ByteOrder) (u : TimestampNs) :
        parseBinaryMessageTimestamp receiver (referenceEncoding bufferSize.toNat u) = u := by
      simpa using parse_referenceEncoding receiver bufferSize.toNat u []
    rw [hencoded]
    refine ⟨wireFormat_referenceEncoding _ t hsize, fun receiver => hparse receiver t, ?_⟩
    intro other prior hprior
    constructor
    · exact createBinaryMessage_eq other prior bufferSize t hprior hsize
    · intro t' hne heq
      rw [createBinaryMessage_eq other prior bufferSize t' hprior hsize] at heq
      have hread := congrArg (parseBinaryMessageTimestamp sender) heq
      rw [hparse, hparse] at hread
      exact hne hread
  · intro hsmall
    exact if_pos hsmall

/-- A message of twelve bytes over a buffer full of ones, and a buffer of three bytes. -/
theorem wire_round_trip_twelve :
    WireFormat 12 258 (createBinaryMessage .little (List.replicate 12 1) 12 258) ∧
      createBinaryMessage .big [1, 2, 3] 3 258 = [1, 2, 3] :=
  ⟨((wire_round_trip (List.replicate 12 1) 12 258 rfl .little).1 (by decide)).1,
    (wire_round_trip [1, 2, 3] 3 258 rfl .big).2 (by decide)⟩

example : createBinaryMessage .little (List.replicate 12 1) 12 258 =
    [0, 0, 0, 0, 0, 0, 1, 2, 0, 1, 2, 3] := by decide

end AeronFast.BinaryMessage
