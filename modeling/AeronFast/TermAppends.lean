import AeronFast.TermBuffer
import AeronFast.Interleaving

/-!
The appends of a publication to one term, made by any number of threads at
once. An append claims its part of the term by one addition to the tail
counter, and then writes its frames there store by store; the append that is
the first not to fit fills the rest of the term with a padding frame. Whatever
the interleaving, the frames lie one behind the other in the order of the
claims, and each is either in the hands of one append or published.
-/
namespace AeronFast.TermAppends

open LabelledRuns Interleaving FlatMemory TermBuffer

section Frames

variable (log : Log)

/-- The length of a fragmented message with its headers, as it is claimed. -/
def computeFragmentedFrameLength (length maxPayloadLength : ℕ) : ℕ :=
  let numMaxPayloads := length / maxPayloadLength
  let remainingPayload := length % maxPayloadLength
  let lastFrameLength := if 0 < remainingPayload then align (remainingPayload + headerLength) else 0
  numMaxPayloads * (maxPayloadLength + headerLength) + lastFrameLength

/-- What a message claims of the term. -/
def claimedLength (message : List UInt8) : ℕ :=
  if message.length ≤ log.maxPayloadLength then align (message.length + headerLength)
  else computeFragmentedFrameLength message.length log.maxPayloadLength

/-- The loop of `appendFragmentedMessage` on the bytes that remain, `fuel` being the turns it
may take. -/
def fragmentFrames : ℕ → UInt8 → ℕ → List UInt8 → List Frame
  | 0, _, _, _ => []
  | fuel + 1, flags, frameOffset, remaining =>
    let bytes := remaining.take log.maxPayloadLength
    let last := remaining.length ≤ log.maxPayloadLength
    .fragment frameOffset (if last then flags ||| endFrag else flags) bytes ::
      if last then []
      else fragmentFrames fuel 0 (frameOffset + align (bytes.length + headerLength))
        (remaining.drop log.maxPayloadLength)

/-- The frames of a message that has its place at an offset. -/
def messageFrames (offset : ℕ) (message : List UInt8) : List Frame :=
  if message.length ≤ log.maxPayloadLength then [.whole offset message]
  else fragmentFrames log message.length beginFrag offset message

/-- The frames an append has to write, when the tail stood at an offset before it. -/
def claimedFrames (termOffset : ℕ) (message : List UInt8) : List Frame :=
  if termOffset + claimedLength log message ≤ log.termLength then
    messageFrames log termOffset message
  else if termOffset < log.termLength then [.padding termOffset (log.termLength - termOffset)]
  else []

/-- The frames of messages claimed one after another, from a value of the tail on. -/
def plan : ℕ → List (List UInt8) → List Frame
  | _, [] => []
  | tail, message :: rest =>
    claimedFrames log (min tail log.termLength) message ++
      plan (tail + claimedLength log message) rest

/-- The messages that fit in the term. -/
def placed : ℕ → List (List UInt8) → List (List UInt8)
  | _, [] => []
  | tail, message :: rest =>
    if min tail log.termLength + claimedLength log message ≤ log.termLength then
      message :: placed (tail + claimedLength log message) rest
    else placed (tail + claimedLength log message) rest

def total (claimed : List (List UInt8)) : ℕ := (claimed.map (claimedLength log)).sum

end Frames

section Appends

variable (log : Log)

/-- The log as the threads share it: the raw tail, which has the term id above the offset, the
term buffer, and the messages for which a place was claimed, in the order of the claims. -/
structure Shared where
  rawTail : UInt64
  memory : Memory
  claimed : List (List UInt8)

inductive AppendPoint
  | claim
  | writing (termId : UInt32) (frame : Frame) (stores : List Store) (later : List Frame)

/-- On to the first of the frames that are left. -/
def enter (termId : UInt32) : List Frame → Option AppendPoint
  | [] => none
  | frame :: later => some (.writing termId frame (frameStores log termId frame) later)

/-- The offset in a raw tail, not beyond the end of the term. -/
def termOffset (rawTail : UInt64) : ℕ := min (rawTail.toNat % 4294967296) log.termLength

/-- The term id in a raw tail. -/
def termId (rawTail : UInt64) : UInt32 := UInt32.ofNat (rawTail.toNat / 4294967296)

/-- One atomic step of an append: the addition to the tail, or one store. -/
def advance (s : Shared) (message : List UInt8) : AppendPoint → Shared × Option AppendPoint
  | .claim =>
    ({ s with
        rawTail := s.rawTail + UInt64.ofNat (claimedLength log message)
        claimed := s.claimed ++ [message] },
      enter log (termId s.rawTail) (claimedFrames log (termOffset log s.rawTail) message))
  | .writing termId _ [] later => (s, enter log termId later)
  | .writing termId frame (store :: stores) later =>
    ({ s with memory := store.apply s.memory },
      if stores = [] then enter log termId later else some (.writing termId frame stores later))

/-- A term to which nothing has been appended. -/
def emptyTerm : Shared := ⟨UInt64.ofNat (log.termId.toNat * 4294967296), blank, []⟩

end Appends

/-- Frames one behind the other. -/
def Chained : ℕ → List Frame → ℕ → Prop
  | start, [], stop => start = stop
  | start, frame :: rest, stop => frame.offset = start ∧ Chained frame.next rest stop

section Chains

variable {log : Log}

theorem chained_append {start mid stop : ℕ} {first second : List Frame}
    (h : Chained start first mid) (h' : Chained mid second stop) :
    Chained start (first ++ second) stop := by
  induction first generalizing start with
  | nil =>
    obtain rfl : start = mid := h
    exact h'
  | cons frame rest ih => exact ⟨h.1, ih h.2⟩

theorem le_next (f : Frame) : f.offset ≤ f.next := Nat.le_add_right _ _

theorem Chained.le {start stop : ℕ} {frames : List Frame} (h : Chained start frames stop) :
    start ≤ stop := by
  induction frames generalizing start with
  | nil => exact Nat.le_of_eq h
  | cons frame rest ih =>
    have hnext := le_next frame
    have hrest := ih h.2
    have hstart := h.1
    omega

/-- A frame of a chain lies between its ends. -/
theorem Chained.between {start stop : ℕ} {frames : List Frame} (h : Chained start frames stop)
    {f : Frame} (hf : f ∈ frames) : start ≤ f.offset ∧ f.next ≤ stop := by
  induction frames generalizing start with
  | nil => exact absurd hf (by simp)
  | cons frame rest ih =>
    have hnext := le_next frame
    rcases List.mem_cons.mp hf with rfl | hrest
    · exact ⟨Nat.le_of_eq h.1.symm, h.2.le⟩
    · obtain ⟨hlow, hhigh⟩ := ih h.2 hrest
      have hstart := h.1
      exact ⟨by omega, hhigh⟩

/-- Two frames of a chain are the same or lie apart. -/
theorem Chained.apart {start stop : ℕ} {frames : List Frame} (h : Chained start frames stop)
    {f g : Frame} (hf : f ∈ frames) (hg : g ∈ frames) (hne : f ≠ g) :
    f.next ≤ g.offset ∨ g.next ≤ f.offset := by
  induction frames generalizing start with
  | nil => exact absurd hf (by simp)
  | cons frame rest ih =>
    rcases List.mem_cons.mp hf with rfl | hfrest
    · rcases List.mem_cons.mp hg with rfl | hgrest
      · exact absurd rfl hne
      · exact Or.inl (h.2.between hgrest).1
    · rcases List.mem_cons.mp hg with rfl | hgrest
      · exact Or.inr (h.2.between hfrest).1
      · exact ih h.2 hfrest hgrest

theorem computeFragmentedFrameLength_step {length : ℕ} (hlong : log.maxPayloadLength < length) :
    computeFragmentedFrameLength length log.maxPayloadLength =
      align (log.maxPayloadLength + headerLength) +
        computeFragmentedFrameLength (length - log.maxPayloadLength) log.maxPayloadLength := by
  have hpos := log.maxPayloadLength_pos
  have hdiv : length / log.maxPayloadLength =
      (length - log.maxPayloadLength) / log.maxPayloadLength + 1 :=
    Nat.div_eq_sub_div hpos (by omega)
  have hmod : length % log.maxPayloadLength =
      (length - log.maxPayloadLength) % log.maxPayloadLength :=
    Nat.mod_eq_sub_mod (by omega)
  have halign : align (log.maxPayloadLength + headerLength) =
      log.maxPayloadLength + headerLength :=
    align_of_dvd (Nat.dvd_add log.maxPayloadLength_aligned (Nat.dvd_refl _))
  simp only [computeFragmentedFrameLength, hdiv, hmod, halign, Nat.add_mul, Nat.one_mul]
  omega

/-- The last part of a fragmented message. -/
theorem computeFragmentedFrameLength_last {length : ℕ} (hpos : 0 < length)
    (hfit : length ≤ log.maxPayloadLength) :
    computeFragmentedFrameLength length log.maxPayloadLength = align (length + headerLength) := by
  rcases Nat.lt_or_eq_of_le hfit with hlt | rfl
  · simp [computeFragmentedFrameLength, Nat.div_eq_of_lt hlt, Nat.mod_eq_of_lt hlt, hpos]
  · have halign : align (log.maxPayloadLength + headerLength) =
        log.maxPayloadLength + headerLength :=
      align_of_dvd (Nat.dvd_add log.maxPayloadLength_aligned (Nat.dvd_refl _))
    simp [computeFragmentedFrameLength, Nat.div_self hpos, halign]

theorem fragmentFrames_chained (fuel : ℕ) (flags : UInt8) (offset : ℕ) (remaining : List UInt8)
    (hpos : 0 < remaining.length) (hfuel : remaining.length ≤ fuel) :
    Chained offset (fragmentFrames log fuel flags offset remaining)
      (offset + computeFragmentedFrameLength remaining.length log.maxPayloadLength) := by
  induction fuel generalizing flags offset remaining with
  | zero => omega
  | succ fuel ih =>
    rw [fragmentFrames]
    by_cases hlast : remaining.length ≤ log.maxPayloadLength
    · have hbytes : remaining.take log.maxPayloadLength = remaining :=
        List.take_of_length_le hlast
      simp only [hlast, if_true, hbytes, computeFragmentedFrameLength_last hpos hlast]
      exact ⟨rfl, rfl⟩
    · have hbytes : (remaining.take log.maxPayloadLength).length = log.maxPayloadLength :=
        List.length_take_of_le (by omega)
      have hdrop : (remaining.drop log.maxPayloadLength).length =
          remaining.length - log.maxPayloadLength := List.length_drop
      have hmax := log.maxPayloadLength_pos
      have hrest := ih 0 (offset + align (log.maxPayloadLength + headerLength))
        (remaining.drop log.maxPayloadLength) (by omega) (by omega)
      rw [hdrop, Nat.add_assoc, ← computeFragmentedFrameLength_step (by omega)] at hrest
      simp only [hlast, if_false, hbytes]
      refine ⟨rfl, ?_⟩
      simpa only [Frame.next, Frame.offset, Frame.span, Frame.length, hbytes] using hrest

theorem messageFrames_chained (offset : ℕ) (message : List UInt8) :
    Chained offset (messageFrames log offset message)
      (offset + claimedLength log message) := by
  unfold messageFrames claimedLength
  split
  · exact ⟨rfl, rfl⟩
  · rename_i hlong
    have hpos := log.maxPayloadLength_pos
    exact fragmentFrames_chained _ _ _ message (by omega) (Nat.le_refl _)

theorem claimedLength_aligned (message : List UInt8) :
    frameAlignment ∣ claimedLength log message := by
  unfold claimedLength
  split
  · exact align_aligned _
  · have hheader : frameAlignment ∣ log.maxPayloadLength + headerLength :=
      Nat.dvd_add log.maxPayloadLength_aligned (Nat.dvd_refl _)
    refine Nat.dvd_add (Nat.dvd_mul_left_of_dvd hheader _) ?_
    split
    · exact align_aligned _
    · exact Nat.dvd_zero _

theorem total_aligned (claimed : List (List UInt8)) : frameAlignment ∣ total log claimed := by
  induction claimed with
  | nil => exact Nat.dvd_zero _
  | cons message rest ih => exact Nat.dvd_add (claimedLength_aligned message) ih

theorem claimedFrames_chained (offset : ℕ) (message : List UInt8)
    (haligned : frameAlignment ∣ offset) (hoffset : offset ≤ log.termLength) :
    Chained offset (claimedFrames log offset message)
      (min (offset + claimedLength log message) log.termLength) := by
  unfold claimedFrames
  split
  · rename_i hfit
    rw [Nat.min_eq_left hfit]
    exact messageFrames_chained offset message
  · rename_i hover
    rw [Nat.min_eq_right (by omega)]
    split
    · have hspan : align (log.termLength - offset) = log.termLength - offset :=
        align_of_dvd (Nat.dvd_sub log.termLength_aligned haligned)
      refine ⟨rfl, ?_⟩
      change offset + align (log.termLength - offset) = log.termLength
      omega
    · exact (by omega : offset = log.termLength)

theorem min_aligned {tail : ℕ} (haligned : frameAlignment ∣ tail) :
    frameAlignment ∣ min tail log.termLength := by
  rcases Nat.le_total tail log.termLength with h | h
  · rwa [Nat.min_eq_left h]
  · rw [Nat.min_eq_right h]
    exact log.termLength_aligned

theorem plan_chained (tail : ℕ) (claimed : List (List UInt8)) (haligned : frameAlignment ∣ tail) :
    Chained (min tail log.termLength) (plan log tail claimed)
      (min (tail + total log claimed) log.termLength) := by
  induction claimed generalizing tail with
  | nil => exact rfl
  | cons message rest ih =>
    have hfirst := claimedFrames_chained (min tail log.termLength) message (min_aligned haligned)
      (Nat.min_le_right _ _)
    have hrest := ih (tail + claimedLength log message)
      (Nat.dvd_add haligned (claimedLength_aligned message))
    have htail : min (min tail log.termLength + claimedLength log message) log.termLength =
        min (tail + claimedLength log message) log.termLength := by omega
    have htotal : tail + total log (message :: rest) =
        tail + claimedLength log message + total log rest := by
      simp only [total, List.map_cons, List.sum_cons]
      omega
    rw [htail] at hfirst
    rw [plan, htotal]
    exact chained_append hfirst hrest

theorem fragmentFrames_long (fuel : ℕ) (flags : UInt8) (offset : ℕ) (remaining : List UInt8)
    (f : Frame) (hf : f ∈ fragmentFrames log fuel flags offset remaining) :
    headerLength ≤ f.length := by
  induction fuel generalizing flags offset remaining with
  | zero => exact absurd hf (by simp [fragmentFrames])
  | succ fuel ih =>
    rw [fragmentFrames] at hf
    rcases List.mem_cons.mp hf with rfl | hrest
    · exact Nat.le_add_left _ _
    · split at hrest
      · exact absurd hrest (by simp)
      · exact ih _ _ _ hrest

theorem claimedFrames_long (offset : ℕ) (message : List UInt8) (haligned : frameAlignment ∣ offset)
    (f : Frame) (hf : f ∈ claimedFrames log offset message) : headerLength ≤ f.length := by
  unfold claimedFrames messageFrames at hf
  split at hf
  · split at hf
    · rw [List.mem_singleton.mp hf]
      exact Nat.le_add_left _ _
    · exact fragmentFrames_long _ _ _ _ f hf
  · split at hf
    · rename_i hshort
      rw [List.mem_singleton.mp hf]
      -- what is left of the term is a multiple of the alignment
      exact Nat.le_of_dvd (Nat.sub_pos_of_lt hshort)
        (Nat.dvd_sub log.termLength_aligned haligned)
    · exact absurd hf (by simp)

theorem plan_long (tail : ℕ) (claimed : List (List UInt8)) (haligned : frameAlignment ∣ tail)
    (f : Frame) (hf : f ∈ plan log tail claimed) : headerLength ≤ f.length := by
  induction claimed generalizing tail with
  | nil => exact absurd hf (by simp [plan])
  | cons message rest ih =>
    rcases List.mem_append.mp hf with hfirst | hrest
    · exact claimedFrames_long _ message (min_aligned haligned) f hfirst
    · exact ih _ (Nat.dvd_add haligned (claimedLength_aligned message)) hrest

/-- Every planned frame has its place in the term. -/
theorem plan_placed (claimed : List (List UInt8)) (f : Frame) (hf : f ∈ plan log 0 claimed) :
    Placed log f := by
  have hchain := @plan_chained log 0 claimed (Nat.dvd_zero _)
  have hnext := (hchain.between hf).2
  exact ⟨by omega, plan_long 0 claimed (Nat.dvd_zero _) f hf⟩

theorem plan_append (tail : ℕ) (claimed : List (List UInt8)) (message : List UInt8) :
    plan log tail (claimed ++ [message]) = plan log tail claimed ++
      claimedFrames log (min (tail + total log claimed) log.termLength) message := by
  induction claimed generalizing tail with
  | nil => simp [plan, total]
  | cons first rest ih =>
    have htotal : tail + claimedLength log first + total log rest =
        tail + total log (first :: rest) := by
      simp only [total, List.map_cons, List.sum_cons]
      omega
    rw [List.cons_append, plan, plan, ih, htotal, List.append_assoc]

theorem total_append (claimed : List (List UInt8)) (message : List UInt8) :
    total log (claimed ++ [message]) = total log claimed + claimedLength log message := by
  simp [total]

end Chains

/-- The frames an append still has to publish. -/
def pending : AppendPoint → List Frame
  | .claim => []
  | .writing _ frame _ later => frame :: later

/-- What an append has made of the frames it has claimed: the stores of the current one up to
where it stands, with the id of the term, and nothing of the later ones. -/
def Held (log : Log) (s : Shared) : AppendPoint → Prop
  | .claim => True
  | .writing termId frame stores later =>
    (termId = log.termId ∧ ∃ done, frameStores log log.termId frame = done ++ stores ∧
      stores ≠ [] ∧ SameOn frame.offset frame.span s.memory (run done blank)) ∧
    (∀ g ∈ later, SameOn g.offset g.span s.memory blank) ∧
    (∀ g ∈ frame :: later, g ∈ plan log 0 s.claimed) ∧
    ∃ stop, Chained frame.offset (frame :: later) stop

section Interleaved

variable {T : Type} [DecidableEq T] (log : Log)

/-- No two appends hold the same frame. -/
def Apart (p : Pool T Shared (List UInt8) AppendPoint) : Prop :=
  ∀ t t' frame frame', t ≠ t' → p.frames t = some frame → p.frames t' = some frame' →
    ∀ f ∈ pending frame.2, f ∉ pending frame'.2

/-- Nothing is written behind the tail, and every frame in front of it is in the hands of one
append or published. -/
structure Intact (p : Pool T Shared (List UInt8) AppendPoint) : Prop where
  tail : p.shared.rawTail =
    UInt64.ofNat (log.termId.toNat * 4294967296 + total log p.shared.claimed)
  beyond : ∀ a, min (total log p.shared.claimed) log.termLength ≤ a → p.shared.memory a = 0
  held : ∀ t call point, p.frames t = some (call, point) → Held log p.shared point
  apart : Apart p
  each : ∀ f ∈ plan log 0 p.shared.claimed, Published log p.shared.memory f ∨
    ∃ t call point, p.frames t = some (call, point) ∧ f ∈ pending point

variable {log} {p u v : Pool T Shared (List UInt8) AppendPoint}

theorem pending_of_enter {termId : UInt32} {frames : List Frame} {point : AppendPoint}
    (h : enter log termId frames = some point) : pending point = frames := by
  cases frames with
  | nil => exact absurd h (by simp [enter])
  | cons frame later =>
    obtain rfl := Option.some.inj h
    rfl

/-- Frames that have been claimed and not begun. -/
theorem held_enter {s : Shared} {frames : List Frame} {point : AppendPoint} {start stop : ℕ}
    (h : enter log log.termId frames = some point) (hchain : Chained start frames stop)
    (hblank : ∀ g ∈ frames, SameOn g.offset g.span s.memory blank)
    (hplan : ∀ g ∈ frames, g ∈ plan log 0 s.claimed) : Held log s point := by
  cases frames with
  | nil => exact absurd h (by simp [enter])
  | cons frame later =>
    obtain rfl := Option.some.inj h
    refine ⟨⟨rfl, [], rfl, by simp [frameStores], hblank frame List.mem_cons_self⟩, ?_, hplan, stop,
      rfl, hchain.2⟩
    exact fun g hg => hblank g (List.mem_cons_of_mem _ hg)

/-- What is held stays held while the memory stays and more is claimed. -/
theorem held_mono {s s' : Shared} {point : AppendPoint} (hmemory : s'.memory = s.memory)
    (hplan : ∀ f ∈ plan log 0 s.claimed, f ∈ plan log 0 s'.claimed) (h : Held log s point) :
    Held log s' point := by
  cases point with
  | claim => trivial
  | writing termId frame stores later =>
    obtain ⟨hcurrent, hlater, hmem, hchain⟩ := h
    rw [← hmemory] at hcurrent hlater
    exact ⟨hcurrent, hlater, fun g hg => hplan g (hmem g hg), hchain⟩

/-- What is held is not touched by a store to a frame apart from it. -/
theorem held_other {s : Shared} {point : AppendPoint} {f : Frame} {store : Store}
    (hwithin : store.Within f.offset f.span)
    (hapart : ∀ g ∈ pending point, g.next ≤ f.offset ∨ f.next ≤ g.offset) (h : Held log s point) :
    Held log { s with memory := store.apply s.memory } point := by
  cases point with
  | claim => trivial
  | writing termId frame stores later =>
    obtain ⟨⟨hid, done, hsplit, hne, hsame⟩, hlater, hmem, hchain⟩ := h
    refine ⟨⟨hid, done, hsplit, hne, ?_⟩, ?_, hmem, hchain⟩
    · exact sameOn_apply_other hwithin (hapart frame List.mem_cons_self) hsame
    · exact fun g hg => sameOn_apply_other hwithin (hapart g (List.mem_cons_of_mem _ hg))
        (hlater g hg)

/-- An append has claimed what it holds. -/
theorem pending_planned {s : Shared} {point : AppendPoint} (h : Held log s point) (f : Frame)
    (hf : f ∈ pending point) : f ∈ plan log 0 s.claimed := by
  cases point with
  | claim => exact absurd hf (by simp [pending])
  | writing termId frame stores later => exact h.2.2.1 f hf

theorem plan_apart {claimed : List (List UInt8)} {f g : Frame} (hf : f ∈ plan log 0 claimed)
    (hg : g ∈ plan log 0 claimed) (hne : f ≠ g) : f.next ≤ g.offset ∨ g.next ≤ f.offset :=
  (plan_chained 0 claimed (Nat.dvd_zero _)).apart hf hg hne

omit [DecidableEq T] in
theorem intact_empty :
    Intact log (idle (emptyTerm log) : Pool T Shared (List UInt8) AppendPoint) where
  tail := by
    have hzero : total log [] = 0 := rfl
    simp only [idle, emptyTerm, hzero, Nat.add_zero]
  beyond := fun _ _ => rfl
  held := by
    intro t call point h
    cases h
  apart := by
    intro t t' frame frame' _ h
    cases h
  each := by
    intro f hf
    exact absurd hf (by simp [idle, emptyTerm, plan])

theorem intact_start {t : T} {message : List UInt8} (h : Intact log u)
    (hstep : PoolStep .claim (advance log) u (.start t message) v) : Intact log v := by
  have hcases := frame_cases_start hstep
  have hkept := frame_of_start hstep
  obtain ⟨hidle, rfl⟩ := hstep
  refine ⟨h.tail, h.beyond, ?_, ?_, ?_⟩
  · intro t' call point hframe
    rcases hcases t' call point hframe with ⟨-, -, rfl⟩ | ⟨-, hold⟩
    · trivial
    · exact h.held t' call point hold
  · intro t' t'' frame frame' hne hframe hframe' f hf hf'
    rcases hcases t' frame.1 frame.2 hframe with ⟨-, -, hpoint⟩ | ⟨-, hold⟩
    · rw [hpoint] at hf
      exact absurd hf (by simp [pending])
    · rcases hcases t'' frame'.1 frame'.2 hframe' with ⟨-, -, hpoint⟩ | ⟨-, hold'⟩
      · rw [hpoint] at hf'
        exact absurd hf' (by simp [pending])
      · exact h.apart t' t'' frame frame' hne hold hold' f hf hf'
  · intro f hf
    rcases h.each f hf with hpublished | ⟨t', call, point, hframe, hmem⟩
    · exact Or.inl hpublished
    · exact Or.inr ⟨t', call, point, (hkept t' _ hframe).2, hmem⟩

/-- While less than 2 ^ 32 bytes are claimed, the tail shows the term and the offset in it. -/
theorem rawTail_parts {s : Shared} (htail : s.rawTail =
      UInt64.ofNat (log.termId.toNat * 4294967296 + total log s.claimed))
    (hbound : total log s.claimed < 4294967296) :
    termId s.rawTail = log.termId ∧
      termOffset log s.rawTail = min (total log s.claimed) log.termLength := by
  have hid := log.termId.toNat_lt
  have hraw : s.rawTail.toNat = log.termId.toNat * 4294967296 + total log s.claimed := by
    rw [htail, UInt64.toNat_ofNat', Nat.mod_eq_of_lt (by omega)]
  constructor
  · have hquotient : s.rawTail.toNat / 4294967296 = log.termId.toNat := by omega
    rw [termId, hquotient, UInt32.ofNat_toNat]
  · rw [termOffset, hraw]
    omega

omit [DecidableEq T] in
/-- A thread that moves on holds nothing that another one holds. -/
theorem apart_moved {t : T} {call : List UInt8} {s : Shared} {next : Option AppendPoint}
    (h : Apart u) (hmoved : Moved u v t call s next)
    (hown : ∀ point f, next = some point → f ∈ pending point →
      ∀ t' frame, t' ≠ t → u.frames t' = some frame → f ∉ pending frame.2) : Apart v := by
  intro t' t'' frame frame' hne hframe hframe' f hf hf'
  obtain ⟨call', point'⟩ := frame
  obtain ⟨call'', point''⟩ := frame'
  rcases hmoved.cases hframe with ⟨rfl, -, hnext⟩ | ⟨ht, hold⟩
  · rcases hmoved.cases hframe' with ⟨rfl, -, -⟩ | ⟨ht', hold'⟩
    · exact hne rfl
    · exact hown point' f hnext hf t'' _ ht' hold' hf'
  · rcases hmoved.cases hframe' with ⟨rfl, -, hnext⟩ | ⟨-, hold'⟩
    · exact hown point'' f hnext hf' t' _ ht hold hf
    · exact h t' t'' _ _ hne hold hold' f hf hf'

/-- The step in which an append claims its place. -/
theorem intact_claim {t : T} {message : List UInt8} (h : Intact log u)
    (hframe : u.frames t = some (message, .claim))
    (hbound : total log u.shared.claimed < 4294967296)
    (hstep : PoolStep .claim (advance log) u (.advance t) v) : Intact log v := by
  have hmoved := moved_of_step hstep hframe
  obtain ⟨hid, hoffset⟩ := rawTail_parts h.tail hbound
  have hmemory : v.shared.memory = u.shared.memory := by
    rw [hmoved.shared]
    rfl
  have hclaimed : v.shared.claimed = u.shared.claimed ++ [message] := by
    rw [hmoved.shared]
    rfl
  have hplan : plan log 0 v.shared.claimed = plan log 0 u.shared.claimed ++
      claimedFrames log (termOffset log u.shared.rawTail) message := by
    rw [hclaimed, plan_append, Nat.zero_add, hoffset]
  have hold : ∀ f ∈ plan log 0 u.shared.claimed, f ∈ plan log 0 v.shared.claimed := fun f hf =>
    hplan ▸ List.mem_append_left _ hf
  have hnew : ∀ f ∈ claimedFrames log (termOffset log u.shared.rawTail) message,
      f ∈ plan log 0 v.shared.claimed := fun f hf => hplan ▸ List.mem_append_right _ hf
  have hbegin := @plan_chained log 0 u.shared.claimed (Nat.dvd_zero _)
  have hchain : Chained (termOffset log u.shared.rawTail)
      (claimedFrames log (termOffset log u.shared.rawTail) message)
      (min (termOffset log u.shared.rawTail + claimedLength log message) log.termLength) := by
    rw [hoffset]
    exact claimedFrames_chained _ message (min_aligned (total_aligned _)) (Nat.min_le_right _ _)
  refine ⟨?_, ?_, ?_, ?_, ?_⟩
  · rw [hmoved.shared]
    simp only [advance, h.tail, ← UInt64.ofNat_add, total_append, Nat.add_assoc]
  · intro a ha
    rw [hmemory]
    rw [hclaimed, total_append] at ha
    exact h.beyond a (by omega)
  · intro t' call point hpoint
    rcases hmoved.cases hpoint with ⟨-, -, hnext⟩ | ⟨-, hbusy⟩
    · simp only [advance, hid] at hnext
      refine held_enter hnext hchain ?_ hnew
      intro g hg a hlow _
      rw [hmemory]
      have hstart := (hchain.between hg).1
      exact h.beyond a (by omega)
    · exact held_mono hmemory hold (h.held t' call point hbusy)
  · refine apart_moved h.apart hmoved ?_
    intro point f hnext hf t' frame _ hbusy hf'
    rw [pending_of_enter hnext] at hf
    have hstart := (hchain.between hf).1
    have hplanned := pending_planned (h.held t' frame.1 frame.2 hbusy) f hf'
    have hstop := (hbegin.between hplanned).2
    have hspan := (plan_placed _ f hplanned).headerLength_le_span
    unfold headerLength at hspan
    unfold Frame.next at hstop
    omega
  · intro f hf
    rw [hplan] at hf
    rcases List.mem_append.mp hf with hf | hf
    · rw [hmemory]
      rcases h.each f hf with hpublished | ⟨t', call, point, hbusy, hmem⟩
      · exact Or.inl hpublished
      · refine Or.inr ⟨t', call, point, ?_, hmem⟩
        rw [hmoved.others t' ?_]
        · exact hbusy
        · rintro rfl
          rw [hframe] at hbusy
          cases hbusy
          exact absurd hmem (by simp [pending])
    · cases hframes : claimedFrames log (termOffset log u.shared.rawTail) message with
      | nil => rw [hframes] at hf; exact absurd hf (by simp)
      | cons first later =>
        refine Or.inr ⟨t, message,
          .writing log.termId first (frameStores log log.termId first) later, ?_, ?_⟩
        · rw [hmoved.own]
          simp only [advance, hid, hframes, enter, Option.map_some]
        · rwa [hframes] at hf

/-- An append with frames to come goes on after a store, and they are still to come. -/
theorem exists_next {s : Shared} {message : List UInt8} {termId : UInt32} {f g : Frame}
    {store : Store} {stores : List Store} {later : List Frame} (hg : g ∈ later) :
    ∃ point, (advance log s message (.writing termId f (store :: stores) later)).2 = some point ∧
      g ∈ pending point := by
  by_cases hlast : stores = []
  · cases later with
    | nil => exact absurd hg (by simp)
    | cons first rest =>
      exact ⟨.writing termId first (frameStores log termId first) rest,
        by simp only [advance, hlast, if_true, enter], hg⟩
  · exact ⟨.writing termId f stores later, by simp only [advance, hlast, if_false],
      List.mem_cons_of_mem _ hg⟩

/-- A step in which an append makes one store of the frame it is at. -/
theorem intact_store {t : T} {message : List UInt8} {termId : UInt32} {f : Frame} {store : Store}
    {stores : List Store} {later : List Frame} (h : Intact log u)
    (hframe : u.frames t = some (message, .writing termId f (store :: stores) later))
    (hstep : PoolStep .claim (advance log) u (.advance t) v) : Intact log v := by
  have hmoved := moved_of_step hstep hframe
  obtain ⟨⟨rfl, done, hsplit, -, hsame⟩, hlater, hplanned, stop, -, hrest⟩ := h.held t _ _ hframe
  have hshared : v.shared = { u.shared with memory := store.apply u.shared.memory } :=
    hmoved.shared
  have hf := hplanned f List.mem_cons_self
  have hstore : store ∈ frameStores log log.termId f := by simp [hsplit]
  have hwithin : store.Within f.offset f.span :=
    frameStores_within (plan_placed _ f hf) store hstore
  have hcurrent : SameOn f.offset f.span v.shared.memory (run (done ++ [store]) blank) := by
    rw [hshared, run_append]
    exact sameOn_apply store hsame
  have hblank : ∀ g ∈ later, SameOn g.offset g.span v.shared.memory blank := by
    intro g hg
    rw [hshared]
    exact sameOn_apply_other hwithin (Or.inr (hrest.between hg).1) (hlater g hg)
  have hsub : ∀ point g, (advance log u.shared message
      (.writing log.termId f (store :: stores) later)).2 =
      some point → g ∈ pending point → g ∈ f :: later := by
    intro point g hnext hg
    simp only [advance] at hnext
    split at hnext
    · rw [pending_of_enter hnext] at hg
      exact List.mem_cons_of_mem _ hg
    · obtain rfl := Option.some.inj hnext
      exact hg
  have hothers : ∀ t' frame, t' ≠ t → u.frames t' = some frame → ∀ g ∈ pending frame.2,
      g.next ≤ f.offset ∨ f.next ≤ g.offset := by
    intro t' frame ht hbusy g hg
    have hne : g ≠ f := by
      rintro rfl
      exact h.apart t t' _ frame (Ne.symm ht) hframe hbusy g List.mem_cons_self hg
    exact plan_apart (pending_planned (h.held t' frame.1 frame.2 hbusy) g hg) hf hne
  refine ⟨?_, ?_, ?_, ?_, ?_⟩
  · rw [hshared]
    exact h.tail
  · intro a ha
    rw [hshared] at ha ⊢
    change min (total log u.shared.claimed) log.termLength ≤ a at ha
    have hstop := ((plan_chained 0 _ (Nat.dvd_zero _)).between hf).2
    obtain ⟨-, hhigh⟩ := hwithin
    unfold Frame.next at hstop
    exact (apply_outside store _ a (Or.inr (by omega))).trans (h.beyond a ha)
  · intro t' call point hpoint
    rcases hmoved.cases hpoint with ⟨-, -, hnext⟩ | ⟨ht, hbusy⟩
    · simp only [advance] at hnext
      split at hnext
      · refine held_enter hnext hrest hblank fun g hg => ?_
        rw [hshared]
        exact hplanned g (List.mem_cons_of_mem _ hg)
      · rename_i hne
        obtain rfl := Option.some.inj hnext
        refine ⟨⟨rfl, done ++ [store], by simp [hsplit], hne, hcurrent⟩, hblank, ?_, stop, rfl,
          hrest⟩
        intro g hg
        rw [hshared]
        exact hplanned g hg
    · rw [hshared]
      exact held_other hwithin (hothers t' (call, point) ht hbusy) (h.held t' call point hbusy)
  · refine apart_moved h.apart hmoved ?_
    intro point g hnext hg t' frame ht hbusy hg'
    exact h.apart t t' _ frame (Ne.symm ht) hframe hbusy g (hsub point g hnext hg) hg'
  · intro g hg
    have hg' : g ∈ plan log 0 u.shared.claimed := by
      rw [hshared] at hg
      exact hg
    by_cases hgf : g = f
    · subst g
      by_cases hlast : stores = []
      · subst stores
        rw [← hsplit] at hcurrent
        exact Or.inl hcurrent
      · refine Or.inr ⟨t, message, .writing log.termId f stores later, ?_, List.mem_cons_self⟩
        rw [hmoved.own]
        simp only [advance, hlast, if_false, Option.map_some]
    · rcases h.each g hg' with hpublished | ⟨t', call, point, hbusy, hmem⟩
      · refine Or.inl ?_
        rw [hshared]
        exact sameOn_apply_other hwithin (plan_apart hg' hf hgf) hpublished
      · by_cases ht : t' = t
        · subst t'
          rw [hframe] at hbusy
          cases hbusy
          have hlaterMem : g ∈ later := (List.mem_cons.mp hmem).resolve_left hgf
          obtain ⟨point, hnext, hpending⟩ := exists_next hlaterMem
          exact Or.inr ⟨t, message, point, by rw [hmoved.own, hnext, Option.map_some], hpending⟩
        · exact Or.inr ⟨t', call, point, by rw [hmoved.others t' ht]; exact hbusy, hmem⟩

theorem intact_advance {t : T} (h : Intact log u)
    (hbound : total log u.shared.claimed < 4294967296)
    (hstep : PoolStep .claim (advance log) u (.advance t) v) : Intact log v := by
  obtain ⟨message, point, hframe, -⟩ := id hstep
  cases point with
  | claim => exact intact_claim h hframe hbound hstep
  | writing termId frame stores later =>
    cases stores with
    | nil =>
      obtain ⟨⟨-, done, -, hne, -⟩, -⟩ := h.held t _ _ hframe
      exact absurd rfl hne
    | cons store rest => exact intact_store h hframe hstep

/-- The claims only grow. -/
theorem claimed_grows {a : Action T (List UInt8)}
    (hstep : PoolStep .claim (advance log) u a v) :
    v.shared.claimed = u.shared.claimed ∨
      ∃ message, v.shared.claimed = u.shared.claimed ++ [message] := by
  cases a with
  | start t message =>
    obtain ⟨-, rfl⟩ := hstep
    exact Or.inl rfl
  | advance t =>
    obtain ⟨message, point, -, rfl⟩ := hstep
    cases point with
    | claim => exact Or.inr ⟨message, rfl⟩
    | writing termId frame stores later =>
      cases stores with
      | nil => exact Or.inl rfl
      | cons store rest => exact Or.inl rfl

theorem total_grows {a : Action T (List UInt8)} (hstep : PoolStep .claim (advance log) u a v) :
    total log u.shared.claimed ≤ total log v.shared.claimed := by
  rcases claimed_grows hstep with hsame | ⟨message, hmore⟩
  · exact Nat.le_of_eq (by rw [hsame])
  · rw [hmore, total_append]
    exact Nat.le_add_right _ _

theorem plan_grows {a : Action T (List UInt8)} (hstep : PoolStep .claim (advance log) u a v) :
    ∃ more, plan log 0 v.shared.claimed = plan log 0 u.shared.claimed ++ more := by
  rcases claimed_grows hstep with hsame | ⟨message, hmore⟩
  · exact ⟨[], by rw [hsame, List.append_nil]⟩
  · exact ⟨_, by rw [hmore, plan_append]⟩

omit [DecidableEq T] in
/-- A frame that an append holds shows no length. -/
theorem unpublished_of_pending {t : T} {message : List UInt8} {point : AppendPoint}
    (h : Intact log u) (hframe : u.frames t = some (message, point)) {f : Frame}
    (hf : f ∈ pending point) : frameLengthVolatile log u.shared.memory f.offset ≤ 0 := by
  have hheld := h.held t message point hframe
  have hplaced := plan_placed _ f (pending_planned hheld f hf)
  cases point with
  | claim => exact absurd hf (by simp [pending])
  | writing termId frame stores later =>
    obtain ⟨⟨-, done, hsplit, hne, hsame⟩, hlater, -, -⟩ := hheld
    rcases List.mem_cons.mp hf with rfl | hmem
    · rw [frameLength_of_same hplaced hsame]
      exact frameLength_unpublished hplaced hsplit hne
    · rw [frameLength_of_same hplaced (hlater f hmem)]
      exact Int.le_of_eq (getInt32_blank f.offset)

omit [DecidableEq T] in
theorem ne_of_published {t : T} {message : List UInt8} {point : AppendPoint} {f g : Frame}
    (h : Intact log u) (hframe : u.frames t = some (message, point)) (hg : g ∈ pending point)
    (hf : Placed log f) (hpublished : Published log u.shared.memory f) : f ≠ g := by
  rintro rfl
  have hlength := unpublished_of_pending h hframe hg
  rw [hpublished.frameLength hf] at hlength
  have hlong := hf.long
  unfold headerLength at hlong
  omega

/-- A published frame is not touched again. -/
theorem published_kept {a : Action T (List UInt8)} (h : Intact log u)
    (hstep : PoolStep .claim (advance log) u a v) {f : Frame}
    (hf : f ∈ plan log 0 u.shared.claimed) (hpublished : Published log u.shared.memory f) :
    Published log v.shared.memory f := by
  cases a with
  | start t message =>
    obtain ⟨-, rfl⟩ := hstep
    exact hpublished
  | advance t =>
    obtain ⟨message, point, hframe, rfl⟩ := hstep
    cases point with
    | claim => exact hpublished
    | writing termId frame stores later =>
      cases stores with
      | nil => exact hpublished
      | cons store rest =>
        obtain ⟨⟨-, done, hsplit, -, -⟩, -, hplanned, -⟩ := h.held t _ _ hframe
        have hframe' := hplanned frame List.mem_cons_self
        have hstore : store ∈ frameStores log log.termId frame := by simp [hsplit]
        have hwithin : store.Within frame.offset frame.span :=
          frameStores_within (plan_placed _ frame hframe') store hstore
        have hne := ne_of_published h hframe List.mem_cons_self (plan_placed _ f hf) hpublished
        exact sameOn_apply_other hwithin (plan_apart hf hframe' hne) hpublished

end Interleaved

end AeronFast.TermAppends
