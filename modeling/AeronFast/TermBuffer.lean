import AeronFast.FlatMemory

/-!
The frames of a term buffer. A frame is announced by its length with the sign
reversed, filled in, and published by storing the length; a reader takes a
length that is not positive for a frame that is not there yet. Whatever part
of the stores of a frame has been made, the length it shows is positive only
after the last of them, and from then on the frame reads as it was meant.
-/
namespace AeronFast.TermBuffer

open ByteBuffers FlatMemory

def frameAlignment : ℕ := 32

def beginFrag : UInt8 := 0x80

def endFrag : UInt8 := 0x40

def unfragmented : UInt8 := beginFrag ||| endFrag

/-- The length of a data frame header. -/
def headerLength : ℕ := 32

def hdrTypePad : ℕ := 0

def hdrTypeData : ℕ := 1

/-- The next multiple of the frame alignment. -/
def align (value : ℕ) : ℕ := (value + (frameAlignment - 1)) / frameAlignment * frameAlignment

/-- What a publication writes into every header, the host it runs on, the term it appends to, and
the sizes of its log: the length of a term is a power of two of at most 2 ^ 30, and the longest
payload leaves room for the header in a frame length that must be aligned. -/
structure Log where
  host : ByteOrder
  sessionId : UInt32
  streamId : UInt32
  termId : UInt32
  termLength : ℕ
  maxPayloadLength : ℕ
  termLength_aligned : frameAlignment ∣ termLength
  termLength_le : termLength ≤ 1073741824
  maxPayloadLength_aligned : frameAlignment ∣ maxPayloadLength
  maxPayloadLength_pos : 0 < maxPayloadLength

/-- A frame by how it is written: a message of its own, a part of a longer message with its
flags, or what fills the rest of a term. -/
inductive Frame
  | whole (offset : ℕ) (payload : List UInt8)
  | fragment (offset : ℕ) (flags : UInt8) (payload : List UInt8)
  | padding (offset : ℕ) (length : ℕ)
  deriving DecidableEq

namespace Frame

def offset : Frame → ℕ
  | whole offset _ => offset
  | fragment offset _ _ => offset
  | padding offset _ => offset

def length : Frame → ℕ
  | whole _ payload => payload.length + headerLength
  | fragment _ _ payload => payload.length + headerLength
  | padding _ length => length

/-- The part of the term that the frame takes up. -/
def span (f : Frame) : ℕ := align f.length

def next (f : Frame) : ℕ := f.offset + f.span

end Frame

section Writing

variable (log : Log)

def putInt32 (address value : ℕ) : Store := ⟨address, log.host.image 4 value⟩

/-- The ordered store of the frame length with its sign reversed. -/
def announce (f : Frame) : Store := putInt32 log f.offset (4294967296 - f.length)

/-- The header fields as `HeaderWriter` stores them after the announcement, with the term id that
the append has found in the tail. -/
def headerFields (termId : UInt32) (f : Frame) : List Store :=
  [⟨f.offset + 4, [0]⟩,
   ⟨f.offset + 5, [unfragmented]⟩,
   ⟨f.offset + 6, log.host.image 2 hdrTypeData⟩,
   putInt32 log (f.offset + 8) f.offset,
   putInt32 log (f.offset + 12) log.sessionId.toNat,
   putInt32 log (f.offset + 16) log.streamId.toNat,
   putInt32 log (f.offset + 20) termId.toNat]

/-- What is stored between the header and the length, with the default reserved value. -/
def frameBody : Frame → List Store
  | .whole offset payload =>
    [⟨offset + headerLength, payload⟩, ⟨offset + 24, log.host.image 8 0⟩]
  | .fragment offset flags payload =>
    [⟨offset + headerLength, payload⟩, ⟨offset + 5, [flags]⟩, ⟨offset + 24, log.host.image 8 0⟩]
  | .padding offset _ => [⟨offset + 6, log.host.image 2 hdrTypePad⟩]

/-- The ordered store of the frame length. -/
def publish (f : Frame) : Store := putInt32 log f.offset f.length

def interior (termId : UInt32) (f : Frame) : List Store :=
  headerFields log termId f ++ frameBody log f

/-- The stores that write a frame, in their order. -/
def frameStores (termId : UInt32) (f : Frame) : List Store :=
  announce log f :: (interior log termId f ++ [publish log f])

end Writing

/-- The signed number that 32 bits stand for. -/
def toInt32 (value : ℕ) : Int := Int.bmod value 4294967296

section Reading

variable (log : Log) (memory : Memory)

def getInt32 (address : ℕ) : Int := toInt32 (log.host.load (load memory address 4))

def frameLengthVolatile (offset : ℕ) : Int := getInt32 log memory offset

def isPaddingFrame (offset : ℕ) : Bool :=
  log.host.load (load memory (offset + 6) 2) = hdrTypePad

/-- What a handler can see of a frame: the fields of its header, and the bytes behind it. -/
structure Fragment where
  frameLength : ℕ
  flags : UInt8
  termOffset : Int
  sessionId : UInt32
  payload : List UInt8
  deriving DecidableEq

/-- The handler's view of the frame at an offset, whose length the reader has found. -/
def fragmentAt (offset frameLength : ℕ) : Fragment where
  frameLength := frameLength
  flags := memory (offset + 5)
  termOffset := getInt32 log memory (offset + 8)
  sessionId := UInt32.ofNat (log.host.load (load memory (offset + 12) 4))
  payload := load memory (offset + headerLength) (frameLength - headerLength)

end Reading

/-- What the handler is to see of a frame; nothing of a padding frame. -/
def Frame.view (log : Log) : Frame → Option Fragment
  | .whole offset payload =>
    some ⟨payload.length + headerLength, unfragmented, offset, log.sessionId, payload⟩
  | .fragment offset flags payload =>
    some ⟨payload.length + headerLength, flags, offset, log.sessionId, payload⟩
  | .padding _ _ => none

/-- The frame has a place in the term and, if it is padding, an aligned length. -/
structure Placed (log : Log) (f : Frame) : Prop where
  within : f.next ≤ log.termLength
  long : headerLength ≤ f.length

section Spans

theorem le_align (value : ℕ) : value ≤ align value := by
  unfold align frameAlignment
  omega

theorem align_aligned (value : ℕ) : frameAlignment ∣ align value := Nat.dvd_mul_left _ _

theorem align_of_dvd {value : ℕ} (h : frameAlignment ∣ value) : align value = value := by
  obtain ⟨n, rfl⟩ := h
  unfold align frameAlignment
  omega

variable {log : Log} {termId : UInt32} {f : Frame}

theorem Placed.length_lt (h : Placed log f) : f.length < 2147483648 := by
  have hspan := le_align f.length
  have hwithin := h.within
  have hterm := log.termLength_le
  unfold Frame.next Frame.span at hwithin
  omega

theorem Placed.offset_lt (h : Placed log f) : f.offset < 1073741824 := by
  have hspan := le_align f.length
  have hwithin := h.within
  have hterm := log.termLength_le
  have hlong := h.long
  unfold headerLength at hlong
  unfold Frame.next Frame.span at hwithin
  omega

/-- The header fields keep to the header, behind the length. -/
theorem headerFields_within (s : Store) (hs : s ∈ headerFields log termId f) :
    s.Within (f.offset + 4) 20 := by
  simp only [headerFields, putInt32, List.mem_cons, List.not_mem_nil, or_false] at hs
  rcases hs with rfl | rfl | rfl | rfl | rfl | rfl | rfl
  all_goals
    simp only [Store.Within, image_length, List.length_singleton]
    omega

theorem frameBody_within (h : Placed log f) (s : Store) (hs : s ∈ frameBody log f) :
    s.Within (f.offset + 4) (f.length - 4) := by
  have hlong := h.long
  unfold headerLength at hlong
  cases f with
  | whole offset payload =>
    simp only [frameBody, List.mem_cons, List.not_mem_nil, or_false] at hs
    rcases hs with rfl | rfl
    all_goals
      simp only [Store.Within, Frame.offset, Frame.length, headerLength, image_length]
      omega
  | fragment offset flags payload =>
    simp only [frameBody, List.mem_cons, List.not_mem_nil, or_false] at hs
    rcases hs with rfl | rfl | rfl
    all_goals
      simp only [Store.Within, Frame.offset, Frame.length, headerLength, image_length,
        List.length_singleton]
      omega
  | padding offset length =>
    simp only [frameBody, List.mem_cons, List.not_mem_nil, or_false] at hs
    subst hs
    simp only [Frame.length] at hlong
    simp only [Store.Within, Frame.offset, Frame.length, image_length]
    omega

/-- The stores between the first and the last keep behind the length. -/
theorem interior_within (h : Placed log f) (s : Store) (hs : s ∈ interior log termId f) :
    s.Within (f.offset + 4) (f.length - 4) := by
  rcases List.mem_append.mp hs with hfield | hbody
  · obtain ⟨hlow, hhigh⟩ := headerFields_within s hfield
    have hlong := h.long
    unfold headerLength at hlong
    exact ⟨hlow, by omega⟩
  · exact frameBody_within h s hbody

/-- The stores of a frame keep to its part of the term. -/
theorem frameStores_within (h : Placed log f) (s : Store) (hs : s ∈ frameStores log termId f) :
    s.Within f.offset f.span := by
  have hspan : f.length ≤ f.span := le_align f.length
  have hlong := h.long
  unfold headerLength at hlong
  have hlength : ∀ value, (putInt32 log f.offset value).Within f.offset f.span := by
    intro value
    simp only [Store.Within, putInt32, image_length]
    omega
  rcases List.mem_cons.mp hs with rfl | hrest
  · exact hlength _
  · rcases List.mem_append.mp hrest with hinterior | hlast
    · obtain ⟨hlow, hhigh⟩ := interior_within h s hinterior
      exact ⟨by omega, by omega⟩
    · rw [List.mem_singleton.mp hlast]
      exact hlength _

end Spans

section Lengths

variable {log : Log} {termId : UInt32} {f : Frame}

theorem toInt32_positive {value : ℕ} (h : value < 2147483648) : toInt32 value = value := by
  unfold toInt32
  rw [Int.bmod_eq_of_le (by omega) (by omega)]

/-- A length with its sign reversed reads as a negative number. -/
theorem toInt32_negative {value : ℕ} (hpos : 0 < value) (h : value < 2147483648) :
    toInt32 (4294967296 - value) ≤ 0 := by
  have hbmod : toInt32 (4294967296 - value) = -value := by
    unfold toInt32
    rw [Int.bmod_eq_iff (by omega)]
    omega
  rw [hbmod]
  omega

theorem getInt32_putInt32 (address value : ℕ) (memory : Memory) (h : value < 4294967296) :
    getInt32 log ((putInt32 log address value).apply memory) address = toInt32 value := by
  have hload : load ((putInt32 log address value).apply memory) address 4 =
      log.host.image 4 value :=
    load_apply_same (putInt32 log address value) memory 4 (image_length _ _ _)
  have hmod : value % 256 ^ 4 = value := Nat.mod_eq_of_lt (Nat.lt_of_lt_of_eq h (by simp))
  rw [getInt32, hload, load_image, hmod]

theorem getInt32_blank (address : ℕ) : getInt32 log blank address = 0 := by
  have hzero : toInt32 0 = 0 := Int.zero_bmod
  rw [getInt32, load_blank, load_zeros, hzero]

/-- A frame shows no length before the last of its stores. -/
theorem frameLength_unpublished (h : Placed log f) {done rest : List Store}
    (hsplit : frameStores log termId f = done ++ rest) (hrest : rest ≠ []) :
    frameLengthVolatile log (run done blank) f.offset ≤ 0 := by
  cases done with
  | nil => exact Int.le_of_eq (getInt32_blank f.offset)
  | cons first middle =>
    obtain ⟨hfirst, hinterior⟩ := List.cons.inj hsplit
    -- the last store is among the rest, so those made lie behind the length
    obtain ⟨before, last, rfl⟩ : ∃ before last, rest = before ++ [last] :=
      ⟨_, _, (List.dropLast_append_getLast hrest).symm⟩
    rw [List.append_eq, ← List.append_assoc] at hinterior
    have hbefore := (List.append_inj' hinterior rfl).1
    have hbehind : ∀ s ∈ middle, f.offset + 4 ≤ s.address := fun s hs =>
      (interior_within h s (hbefore ▸ List.mem_append_left _ hs)).1
    have hload : load (run middle (first.apply blank)) f.offset 4 =
        load (first.apply blank) f.offset 4 :=
      load_run_disjoint (fun s hs => Or.inl (hbehind s hs)) _
    have hlong := h.long
    unfold headerLength at hlong
    have hannounce : getInt32 log ((announce log f).apply blank) f.offset ≤ 0 :=
      Int.le_trans (Int.le_of_eq (getInt32_putInt32 _ _ _ (by omega)))
        (toInt32_negative (by omega) h.length_lt)
    have hrun : run (first :: middle) blank = run middle (first.apply blank) := rfl
    rw [frameLengthVolatile, getInt32, hrun, hload, ← hfirst]
    exact hannounce

/-- After the last store it shows its length. -/
theorem frameLength_published (h : Placed log f) :
    frameLengthVolatile log (run (frameStores log termId f) blank) f.offset = f.length := by
  have hstores : frameStores log termId f =
      (announce log f :: interior log termId f) ++ [publish log f] := rfl
  rw [frameLengthVolatile, hstores, run_append]
  have hlt := h.length_lt
  exact (getInt32_putInt32 f.offset f.length _ (by omega)).trans (toInt32_positive hlt)

end Lengths

section Views

variable {log : Log} {termId : UInt32} {f : Frame}

/-- The stores after the header keep out of the fields from the term offset to the term id. -/
theorem frameBody_apart (s : Store) (hs : s ∈ frameBody log f) :
    s.address + s.bytes.length ≤ f.offset + 8 ∨ f.offset + 24 ≤ s.address := by
  cases f with
  | whole offset payload =>
    simp only [frameBody, List.mem_cons, List.not_mem_nil, or_false] at hs
    rcases hs with rfl | rfl
    all_goals
      simp only [Frame.offset, headerLength, image_length]
      omega
  | fragment offset flags payload =>
    simp only [frameBody, List.mem_cons, List.not_mem_nil, or_false] at hs
    rcases hs with rfl | rfl | rfl
    all_goals
      simp only [Frame.offset, headerLength, image_length, List.length_singleton]
      omega
  | padding offset length =>
    simp only [frameBody, List.mem_cons, List.not_mem_nil, or_false] at hs
    subst hs
    simp only [Frame.offset, image_length]
    omega

/-- What stands in a header field that is stored once. -/
theorem load_headerField (before after : List Store) {address value : ℕ}
    (hfields : headerFields log termId f = before ++ putInt32 log address value :: after)
    (hlow : f.offset + 8 ≤ address) (hhigh : address + 4 ≤ f.offset + 24)
    (hafter : ∀ s ∈ after, address + 4 ≤ s.address) :
    load (run (frameStores log termId f) blank) address 4 = log.host.image 4 value := by
  have hsplit : frameStores log termId f = (announce log f :: before) ++
      putInt32 log address value :: (after ++ frameBody log f ++ [publish log f]) := by
    simp [frameStores, interior, hfields]
  rw [hsplit]
  refine load_run_last _ _ (putInt32 log address value) blank 4 (image_length _ _ _) ?_
  intro s hs
  simp only [List.mem_append, List.mem_singleton] at hs
  rcases hs with (hs | hs) | rfl
  · exact Or.inl (hafter s hs)
  · rcases frameBody_apart s hs with hbelow | habove
    · exact Or.inr (by simp only [putInt32]; omega)
    · exact Or.inl (by simp only [putInt32]; omega)
  · exact Or.inr (by simp only [putInt32, publish, image_length]; omega)

theorem termOffset_published (h : Placed log f) :
    getInt32 log (run (frameStores log termId f) blank) (f.offset + 8) = f.offset := by
  have hload : load (run (frameStores log termId f) blank) (f.offset + 8) 4 =
      log.host.image 4 f.offset := by
    refine load_headerField ((headerFields log termId f).take 3)
      ((headerFields log termId f).drop 4) rfl (by omega) (by omega) ?_
    intro s hs
    simp only [headerFields, List.drop_succ_cons, List.drop_zero, putInt32, List.mem_cons,
      List.not_mem_nil, or_false] at hs
    rcases hs with rfl | rfl | rfl
    all_goals
      dsimp only
      omega
  have hlt := h.offset_lt
  have hmod : f.offset % 256 ^ 4 = f.offset :=
    Nat.mod_eq_of_lt (Nat.lt_of_lt_of_le hlt (by simp))
  rw [getInt32, hload, load_image, hmod]
  exact toInt32_positive (by omega)

theorem sessionId_published :
    UInt32.ofNat (log.host.load (load (run (frameStores log termId f) blank) (f.offset + 12) 4)) =
      log.sessionId := by
  have hload : load (run (frameStores log termId f) blank) (f.offset + 12) 4 =
      log.host.image 4 log.sessionId.toNat := by
    refine load_headerField ((headerFields log termId f).take 4)
      ((headerFields log termId f).drop 5) rfl (by omega) (by omega) ?_
    intro s hs
    simp only [headerFields, List.drop_succ_cons, List.drop_zero, putInt32, List.mem_cons,
      List.not_mem_nil, or_false] at hs
    rcases hs with rfl | rfl
    all_goals
      dsimp only
      omega
  have hlt := log.sessionId.toNat_lt
  have hmod : log.sessionId.toNat % 256 ^ 4 = log.sessionId.toNat :=
    Nat.mod_eq_of_lt (Nat.lt_of_lt_of_eq hlt (by simp))
  rw [hload, load_image, hmod, UInt32.ofNat_toNat]

/-- The stores behind the flags and the type in the header. -/
theorem laterFields_behind (s : Store) (hs : s ∈ (headerFields log termId f).drop 3) :
    f.offset + 8 ≤ s.address := by
  simp only [headerFields, List.drop_succ_cons, List.drop_zero, putInt32, List.mem_cons,
    List.not_mem_nil, or_false] at hs
  rcases hs with rfl | rfl | rfl | rfl
  all_goals
    dsimp only
    omega

/-- Bytes between the length and the term offset, where one of the stores puts them last. -/
theorem load_published {before after : List Store} {s : Store} {size : ℕ}
    (hinterior : interior log termId f = before ++ s :: after) (hsize : s.bytes.length = size)
    (hlow : f.offset + 4 ≤ s.address) (hafter : ∀ s' ∈ after,
      s.address + size ≤ s'.address ∨ s'.address + s'.bytes.length ≤ s.address) :
    load (run (frameStores log termId f) blank) s.address size = s.bytes := by
  have hsplit : frameStores log termId f = (announce log f :: before) ++ s ::
      (after ++ [publish log f]) := by
    simp [frameStores, hinterior]
  rw [hsplit]
  refine load_run_last _ _ s blank size hsize fun s' hs' => ?_
  rcases List.mem_append.mp hs' with hmem | hlast
  · exact hafter s' hmem
  · rw [List.mem_singleton.mp hlast]
    exact Or.inr (by simp only [publish, putInt32, image_length]; omega)

theorem payload_published (f : Frame) (payload : List UInt8) (rest : List Store)
    (hbody : frameBody log f = ⟨f.offset + headerLength, payload⟩ :: rest)
    (hrest : ∀ s ∈ rest, s.address + s.bytes.length ≤ f.offset + headerLength) :
    load (run (frameStores log termId f) blank) (f.offset + headerLength) payload.length =
      payload := by
  have hinterior : interior log termId f =
      headerFields log termId f ++ ⟨f.offset + headerLength, payload⟩ :: rest := by
    rw [interior, hbody]
  refine load_published hinterior rfl ?_ fun s hs => Or.inr (hrest s hs)
  simp only [headerLength]
  omega

theorem byte_eq_of_load {memory : Memory} {address : ℕ} {b : UInt8}
    (h : load memory address 1 = [b]) : memory address = b :=
  (List.cons.inj h).1

theorem image_type_ne_pad (host : ByteOrder) :
    host.load (host.image 2 hdrTypeData) ≠ hdrTypePad := by
  rw [load_image]
  decide

/-- A frame shows itself to be padding exactly if it is. -/
theorem isPaddingFrame_published :
    isPaddingFrame log (run (frameStores log termId f) blank) f.offset = (f.view log).isNone := by
  have hdata : ∀ body, interior log termId f = (headerFields log termId f).take 2 ++
        ⟨f.offset + 6, log.host.image 2 hdrTypeData⟩ ::
          ((headerFields log termId f).drop 3 ++ body) →
      (∀ s ∈ body, s.address + s.bytes.length ≤ f.offset + 6 ∨ f.offset + 8 ≤ s.address) →
      isPaddingFrame log (run (frameStores log termId f) blank) f.offset = false := by
    intro body hinterior hbody
    have hload := load_published hinterior (image_length _ _ _) (by dsimp only; omega)
      (fun s hs => by
        rcases List.mem_append.mp hs with hfield | hmem
        · exact Or.inl (laterFields_behind s hfield)
        · exact (hbody s hmem).symm)
    simp only [isPaddingFrame, hload, image_type_ne_pad, decide_false]
  cases f with
  | whole offset payload =>
    refine hdata (frameBody log (.whole offset payload)) rfl fun s hs => ?_
    simp only [frameBody, List.mem_cons, List.not_mem_nil, or_false] at hs
    rcases hs with rfl | rfl
    all_goals
      simp only [Frame.offset, headerLength]
      omega
  | fragment offset flags payload =>
    refine hdata (frameBody log (.fragment offset flags payload)) rfl fun s hs => ?_
    simp only [frameBody, List.mem_cons, List.not_mem_nil, or_false] at hs
    rcases hs with rfl | rfl | rfl
    all_goals
      simp only [Frame.offset, headerLength, List.length_singleton]
      omega
  | padding offset length =>
    have hinterior : interior log termId (.padding offset length) =
        headerFields log termId (.padding offset length) ++
          ⟨offset + 6, log.host.image 2 hdrTypePad⟩ :: [] := rfl
    have hload := load_published hinterior (image_length _ _ _)
      (by simp only [Frame.offset]; omega) (by simp)
    have hpad : log.host.load (log.host.image 2 hdrTypePad) = hdrTypePad := by
      rw [load_image]
      rfl
    simp only [isPaddingFrame, Frame.offset, hload, hpad, decide_true, Frame.view,
      Option.isNone_none]

/-- The view of a published frame, from its flags and its payload. -/
theorem fragmentAt_of_parts (h : Placed log f) {flags : UInt8} {payload : List UInt8}
    (hlength : f.length = payload.length + headerLength)
    (hflags : load (run (frameStores log termId f) blank) (f.offset + 5) 1 = [flags])
    (hpayload : load (run (frameStores log termId f) blank) (f.offset + headerLength)
      payload.length = payload) :
    fragmentAt log (run (frameStores log termId f) blank) f.offset f.length =
      ⟨payload.length + headerLength, flags, f.offset, log.sessionId, payload⟩ := by
  simp only [fragmentAt, hlength, byte_eq_of_load hflags, termOffset_published h,
    sessionId_published, Nat.add_sub_cancel, hpayload]

/-- A frame that has been published reads as it was meant. -/
theorem fragmentAt_published (termId : UInt32) (h : Placed log f) (g : Fragment)
    (hview : f.view log = some g) :
    fragmentAt log (run (frameStores log termId f) blank) f.offset f.length = g := by
  cases f with
  | whole offset payload =>
    obtain rfl := Option.some.inj hview
    refine fragmentAt_of_parts h rfl ?_ ?_
    · have hinterior : interior log termId (.whole offset payload) =
          [⟨offset + 4, [0]⟩] ++ ⟨offset + 5, [unfragmented]⟩ ::
            ((headerFields log termId (.whole offset payload)).drop 2 ++
              frameBody log (.whole offset payload)) := rfl
      refine load_published hinterior rfl (by simp only [Frame.offset]; omega) fun s hs => ?_
      simp only [headerFields, frameBody, putInt32, List.drop_succ_cons, List.drop_zero,
        List.mem_append, List.mem_cons, List.not_mem_nil, or_false, Frame.offset] at hs
      rcases hs with (rfl | rfl | rfl | rfl | rfl) | rfl | rfl
      all_goals
        simp only [headerLength]
        omega
    · refine payload_published _ payload _ rfl fun s hs => ?_
      rw [List.mem_singleton.mp hs]
      simp only [Frame.offset, headerLength, image_length]
      omega
  | fragment offset flags payload =>
    obtain rfl := Option.some.inj hview
    refine fragmentAt_of_parts h rfl ?_ ?_
    · have hinterior : interior log termId (.fragment offset flags payload) =
          (headerFields log termId (.fragment offset flags payload) ++
            [⟨offset + headerLength, payload⟩]) ++ ⟨offset + 5, [flags]⟩ ::
              [⟨offset + 24, log.host.image 8 0⟩] := by
        simp [interior, frameBody]
      refine load_published hinterior rfl (by simp only [Frame.offset]; omega) fun s hs => ?_
      rw [List.mem_singleton.mp hs]
      dsimp only
      omega
    · refine payload_published _ payload _ rfl fun s hs => ?_
      simp only [List.mem_cons, List.not_mem_nil, or_false] at hs
      rcases hs with rfl | rfl
      all_goals
        simp only [Frame.offset, headerLength, image_length, List.length_singleton]
        omega
  | padding offset length => exact absurd hview (by simp [Frame.view])

/-- The frame has been written to its end, as a frame of the term. -/
def Published (log : Log) (memory : Memory) (f : Frame) : Prop :=
  SameOn f.offset f.span memory (run (frameStores log log.termId f) blank)

theorem Placed.headerLength_le_span (h : Placed log f) : headerLength ≤ f.span :=
  Nat.le_trans h.long (le_align f.length)

theorem frameLength_of_same {m m' : Memory} (h : Placed log f)
    (hsame : SameOn f.offset f.span m m') :
    frameLengthVolatile log m f.offset = frameLengthVolatile log m' f.offset := by
  have hspan := h.headerLength_le_span
  unfold headerLength at hspan
  have hload : load m f.offset 4 = load m' f.offset 4 :=
    load_of_same hsame (Nat.le_refl _) (by omega)
  rw [frameLengthVolatile, frameLengthVolatile, getInt32, getInt32, hload]

theorem Published.frameLength {memory : Memory} (h : Placed log f)
    (hpublished : Published log memory f) :
    frameLengthVolatile log memory f.offset = f.length := by
  rw [frameLength_of_same h hpublished, frameLength_published h]

theorem Published.isPaddingFrame {memory : Memory} (h : Placed log f)
    (hpublished : Published log memory f) :
    isPaddingFrame log memory f.offset = (f.view log).isNone := by
  have hspan := h.headerLength_le_span
  unfold headerLength at hspan
  rw [← isPaddingFrame_published, TermBuffer.isPaddingFrame, TermBuffer.isPaddingFrame,
    load_of_same hpublished (by omega) (by omega)]

theorem Published.fragmentAt {memory : Memory} (h : Placed log f)
    (hpublished : Published log memory f) (g : Fragment) (hview : f.view log = some g) :
    fragmentAt log memory f.offset f.length = g := by
  have hspan := h.headerLength_le_span
  have hlong := h.long
  have hlength : f.length ≤ f.span := le_align f.length
  have hload : ∀ address count, f.offset ≤ address → address + count ≤ f.offset + f.span →
      load memory address count = load (run (frameStores log log.termId f) blank) address count :=
    fun address count hlow hhigh => load_of_same hpublished hlow hhigh
  unfold headerLength at hspan hlong
  have hflags := hpublished (f.offset + 5) (by omega) (by omega)
  have htermOffset := hload (f.offset + 8) 4 (by omega) (by omega)
  have hsession := hload (f.offset + 12) 4 (by omega) (by omega)
  have hpayload := hload (f.offset + headerLength) (f.length - headerLength)
    (by omega) (by unfold headerLength; omega)
  rw [← fragmentAt_published log.termId h g hview]
  simp only [TermBuffer.fragmentAt, getInt32, hflags, htermOffset, hsession, hpayload]

end Views

end AeronFast.TermBuffer
