import AeronFast.TermReads

/-!
Messages put together from fragments. The assembler keeps one builder for each
session, so the fragments of other images in between do not matter to it. It
hands over a message with its last fragment, and ignores the fragments of a
session until one comes that begins a message.
-/
namespace AeronFast.FragmentAssembly

open TermBuffer TermAppends TermReads

def nullValue : Int := -1

/-- The offset of the frame behind a fragment. -/
def nextTermOffset (g : Fragment) : Int := (g.termOffset + g.frameLength + 31) / 32 * 32

structure Builder where
  buffer : List UInt8
  nextTermOffset : Int

def Builder.reset (_ : Builder) : Builder := ⟨[], nullValue⟩

/-- The builders by session, and what the delegate got: each message with its session. -/
structure Assembler where
  builders : UInt32 → Option Builder
  messages : List (UInt32 × List UInt8)

namespace Assembler

def setBuilder (a : Assembler) (sessionId : UInt32) (b : Builder) : Assembler :=
  { a with builders := Function.update a.builders sessionId (some b) }

def delegate (a : Assembler) (sessionId : UInt32) (message : List UInt8) : Assembler :=
  { a with messages := a.messages ++ [(sessionId, message)] }

def handleFragment (a : Assembler) (g : Fragment) : Assembler :=
  if g.flags &&& beginFrag = beginFrag then
    a.setBuilder g.sessionId ⟨g.payload, nextTermOffset g⟩
  else
    match a.builders g.sessionId with
    | none => a
    | some builder =>
      if g.termOffset = builder.nextTermOffset then
        if g.flags &&& endFrag = endFrag then
          (a.delegate g.sessionId (builder.buffer ++ g.payload)).setBuilder g.sessionId
            builder.reset
        else a.setBuilder g.sessionId ⟨builder.buffer ++ g.payload, nextTermOffset g⟩
      else a.setBuilder g.sessionId builder.reset

def onFragment (a : Assembler) (g : Fragment) : Assembler :=
  if g.flags &&& unfragmented = unfragmented then a.delegate g.sessionId g.payload
  else a.handleFragment g

def empty : Assembler := ⟨fun _ => none, []⟩

/-- The messages of one session, in the order in which the delegate got them. -/
def messagesOf (a : Assembler) (sessionId : UInt32) : List (List UInt8) :=
  (a.messages.filter (fun m => m.1 = sessionId)).map Prod.snd

end Assembler

open Assembler

/-- What an assembler makes of fragments, of any sessions. -/
def assemble (a : Assembler) (fragments : List Fragment) : Assembler :=
  fragments.foldl Assembler.onFragment a

section Sessions

variable {sessionId : UInt32}

/-- Two assemblers are alike for a session. -/
def Alike (sessionId : UInt32) (a b : Assembler) : Prop :=
  a.builders sessionId = b.builders sessionId ∧ a.messagesOf sessionId = b.messagesOf sessionId

theorem messagesOf_delegate (a : Assembler) (message : List UInt8) :
    (a.delegate sessionId message).messagesOf sessionId = a.messagesOf sessionId ++ [message] := by
  simp [messagesOf, delegate]

theorem messagesOf_delegate_other (a : Assembler) {other : UInt32} (message : List UInt8)
    (hother : other ≠ sessionId) :
    (a.delegate other message).messagesOf sessionId = a.messagesOf sessionId := by
  simp [messagesOf, delegate, hother]

theorem messagesOf_setBuilder (a : Assembler) (other : UInt32) (b : Builder) :
    (a.setBuilder other b).messagesOf sessionId = a.messagesOf sessionId := rfl

theorem builders_setBuilder (a : Assembler) (b : Builder) :
    (a.setBuilder sessionId b).builders sessionId = some b :=
  Function.update_self _ _ _

theorem builders_setBuilder_other (a : Assembler) {other : UInt32} (b : Builder)
    (hother : other ≠ sessionId) : (a.setBuilder other b).builders sessionId =
      a.builders sessionId :=
  Function.update_of_ne hother.symm _ _

/-- A fragment of another session makes no difference. -/
theorem alike_other (a : Assembler) (g : Fragment) (hother : g.sessionId ≠ sessionId) :
    Alike sessionId (a.onFragment g) a := by
  have hset : ∀ (b : Assembler) builder, Alike sessionId b a →
      Alike sessionId (b.setBuilder g.sessionId builder) a := fun b builder h =>
    ⟨(builders_setBuilder_other b builder hother).trans h.1, h.2⟩
  have hdelegate : ∀ message, Alike sessionId (a.delegate g.sessionId message) a := fun message =>
    ⟨rfl, messagesOf_delegate_other a message hother⟩
  unfold onFragment handleFragment
  split
  · exact hdelegate _
  · split
    · exact hset _ _ ⟨rfl, rfl⟩
    · split
      · exact ⟨rfl, rfl⟩
      · split
        · split
          · exact hset _ _ (hdelegate _)
          · exact hset _ _ ⟨rfl, rfl⟩
        · exact hset _ _ ⟨rfl, rfl⟩

/-- A fragment of the session does the same to assemblers that are alike for it. -/
theorem alike_own {a b : Assembler} (g : Fragment) (h : Alike g.sessionId a b) :
    Alike g.sessionId (a.onFragment g) (b.onFragment g) := by
  obtain ⟨hbuilders, hmessages⟩ := h
  have hset : ∀ (a' b' : Assembler) builder, a'.messagesOf g.sessionId = b'.messagesOf g.sessionId →
      Alike g.sessionId (a'.setBuilder g.sessionId builder) (b'.setBuilder g.sessionId builder) :=
    fun a' b' builder heq =>
      ⟨(builders_setBuilder a' builder).trans (builders_setBuilder b' builder).symm, heq⟩
  have hdelegate : ∀ message, (a.delegate g.sessionId message).messagesOf g.sessionId =
      (b.delegate g.sessionId message).messagesOf g.sessionId := by
    intro message
    rw [messagesOf_delegate, messagesOf_delegate, hmessages]
  unfold onFragment handleFragment
  split
  · exact ⟨hbuilders, hdelegate _⟩
  · split
    · exact hset _ _ _ hmessages
    · rw [← hbuilders]
      split
      · exact ⟨hbuilders, hmessages⟩
      · split
        · split
          · exact hset _ _ _ (hdelegate _)
          · exact hset _ _ _ hmessages
        · exact hset _ _ _ hmessages

/-- Only the fragments of a session matter to its messages. -/
theorem alike_assemble {a b : Assembler} (fragments : List Fragment) (h : Alike sessionId a b) :
    Alike sessionId (assemble a fragments)
      (assemble b (fragments.filter (fun g => g.sessionId = sessionId))) := by
  induction fragments generalizing a b with
  | nil => exact h
  | cons g rest ih =>
    by_cases hown : g.sessionId = sessionId
    · rw [List.filter_cons_of_pos (by simpa using hown)]
      subst hown
      exact ih (alike_own g h)
    · rw [List.filter_cons_of_neg (by simpa using hown)]
      obtain ⟨hbuilders, hmessages⟩ := alike_other a g hown
      exact ih ⟨hbuilders.trans h.1, hmessages.trans h.2⟩

/-- The messages handed over stay handed over. -/
theorem messagesOf_onFragment (a : Assembler) (g : Fragment) :
    a.messagesOf sessionId <+: (a.onFragment g).messagesOf sessionId := by
  have hdelegate : ∀ message, a.messagesOf sessionId <+:
      (a.delegate g.sessionId message).messagesOf sessionId := by
    intro message
    by_cases hown : g.sessionId = sessionId
    · subst hown
      rw [messagesOf_delegate]
      exact List.prefix_append _ _
    · rw [messagesOf_delegate_other a message hown]
  unfold onFragment handleFragment
  split
  · exact hdelegate _
  · split
    · exact List.prefix_refl _
    · split
      · exact List.prefix_refl _
      · split
        · split
          · exact hdelegate _
          · exact List.prefix_refl _
        · exact List.prefix_refl _

theorem messagesOf_assemble (a : Assembler) (fragments : List Fragment) :
    a.messagesOf sessionId <+: (assemble a fragments).messagesOf sessionId := by
  induction fragments generalizing a with
  | nil => exact List.prefix_refl _
  | cons g rest ih => exact (messagesOf_onFragment a g).trans (ih (a.onFragment g))

theorem assemble_append (a : Assembler) (first second : List Fragment) :
    assemble a (first ++ second) = assemble (assemble a first) second := List.foldl_append

end Sessions

/-- The fragment begins a message. -/
def isBegin (g : Fragment) : Bool := g.flags &&& beginFrag = beginFrag

/-- The messages that fragments begin. -/
def begins (fragments : List Fragment) : ℕ := fragments.countP isBegin

section Flags

theorem unfragmented_begin {flags : UInt8} (h : flags &&& unfragmented = unfragmented) :
    flags &&& beginFrag = beginFrag := by
  have hsub : unfragmented &&& beginFrag = beginFrag := rfl
  calc flags &&& beginFrag
      = flags &&& (unfragmented &&& beginFrag) := by rw [hsub]
    _ = unfragmented &&& beginFrag := by rw [← UInt8.and_assoc, h]
    _ = beginFrag := hsub

/-- What does not begin a message is ignored while its session has no builder. -/
theorem onFragment_ignored (a : Assembler) (g : Fragment) (hbegin : isBegin g = false)
    (hnone : a.builders g.sessionId = none) : a.onFragment g = a := by
  have hflags : ¬ g.flags &&& beginFrag = beginFrag := by simpa [isBegin] using hbegin
  have hwhole : ¬ g.flags &&& unfragmented = unfragmented := fun h =>
    hflags (unfragmented_begin h)
  rw [onFragment, if_neg hwhole, handleFragment, if_neg hflags, hnone]

theorem onFragment_whole (a : Assembler) (g : Fragment) (hflags : g.flags = unfragmented) :
    a.onFragment g = a.delegate g.sessionId g.payload := by
  have hwhole : unfragmented &&& unfragmented = unfragmented := rfl
  rw [onFragment, hflags, if_pos hwhole]

theorem onFragment_first (a : Assembler) (g : Fragment) (hflags : g.flags = beginFrag) :
    a.onFragment g = a.setBuilder g.sessionId ⟨g.payload, nextTermOffset g⟩ := by
  have hwhole : ¬ beginFrag &&& unfragmented = unfragmented := by decide
  have hbegin : beginFrag &&& beginFrag = beginFrag := rfl
  rw [onFragment, handleFragment, hflags, if_neg hwhole, if_pos hbegin]

section Continuing

variable {builder : Builder}

theorem onFragment_middle (a : Assembler) (g : Fragment) (hflags : g.flags = 0)
    (hbuilder : a.builders g.sessionId = some builder)
    (hoffset : g.termOffset = builder.nextTermOffset) :
    a.onFragment g =
      a.setBuilder g.sessionId ⟨builder.buffer ++ g.payload, nextTermOffset g⟩ := by
  have hwhole : ¬ (0 : UInt8) &&& unfragmented = unfragmented := by decide
  have hbegin : ¬ (0 : UInt8) &&& beginFrag = beginFrag := by decide
  have hend : ¬ (0 : UInt8) &&& endFrag = endFrag := by decide
  rw [onFragment, handleFragment, hflags, if_neg hwhole, if_neg hbegin, hbuilder]
  exact (if_pos hoffset).trans (if_neg hend)

theorem onFragment_last (a : Assembler) (g : Fragment) (hflags : g.flags = endFrag)
    (hbuilder : a.builders g.sessionId = some builder)
    (hoffset : g.termOffset = builder.nextTermOffset) :
    a.onFragment g = (a.delegate g.sessionId (builder.buffer ++ g.payload)).setBuilder g.sessionId
      builder.reset := by
  have hwhole : ¬ endFrag &&& unfragmented = unfragmented := by decide
  have hbegin : ¬ endFrag &&& beginFrag = beginFrag := by decide
  have hend : endFrag &&& endFrag = endFrag := rfl
  rw [onFragment, handleFragment, hflags, if_neg hwhole, if_neg hbegin, hbuilder]
  exact (if_pos hoffset).trans (if_pos hend)

end Continuing

theorem assemble_ignored (a : Assembler) (fragments : List Fragment)
    (hbegin : ∀ g ∈ fragments, isBegin g = false)
    (hnone : ∀ g ∈ fragments, a.builders g.sessionId = none) : assemble a fragments = a := by
  induction fragments with
  | nil => rfl
  | cons g rest ih =>
    obtain ⟨hg, hrest⟩ := List.forall_mem_cons.mp hbegin
    obtain ⟨hgnone, hrestnone⟩ := List.forall_mem_cons.mp hnone
    rw [assemble, List.foldl_cons, onFragment_ignored a g hg hgnone]
    exact ih hrest hrestnone

end Flags

/-- What a handler sees of frames. -/
def views (log : Log) (frames : List Frame) : List Fragment := frames.filterMap (Frame.view log)

section Messages

variable {log : Log}

theorem views_append (first second : List Frame) :
    views log (first ++ second) = views log first ++ views log second :=
  List.filterMap_append

theorem nextTermOffset_aligned {offset frameLength : ℕ} {flags : UInt8} {sessionId : UInt32}
    {payload : List UInt8} (haligned : frameAlignment ∣ offset) :
    nextTermOffset ⟨frameLength, flags, offset, sessionId, payload⟩ =
      ((offset + align frameLength : ℕ) : Int) := by
  obtain ⟨n, rfl⟩ := haligned
  simp only [nextTermOffset, align, frameAlignment]
  omega

/-- The fragments after the first bring the rest of a message to its builder. -/
theorem assemble_rest (a : Assembler) (buffer : List UInt8) (fuel offset : ℕ)
    (remaining : List UInt8) (haligned : frameAlignment ∣ offset) (hpos : 0 < remaining.length)
    (hfuel : remaining.length ≤ fuel)
    (hbuilder : a.builders log.sessionId = some ⟨buffer, offset⟩) :
    (assemble a (views log (fragmentFrames log fuel 0 offset remaining))).messagesOf log.sessionId =
      a.messagesOf log.sessionId ++ [buffer ++ remaining] := by
  induction fuel generalizing a buffer offset remaining with
  | zero => omega
  | succ fuel ih =>
    rw [fragmentFrames]
    by_cases hlast : remaining.length ≤ log.maxPayloadLength
    · have hbytes : remaining.take log.maxPayloadLength = remaining := List.take_of_length_le hlast
      simp only [hlast, if_true, hbytes, views, List.filterMap_cons, List.filterMap_nil,
        Frame.view, assemble, List.foldl_cons, List.foldl_nil]
      rw [onFragment_last a _ rfl hbuilder rfl, messagesOf_setBuilder, messagesOf_delegate]
    · have hbytes : (remaining.take log.maxPayloadLength).length = log.maxPayloadLength :=
        List.length_take_of_le (by omega)
      have hdrop : (remaining.drop log.maxPayloadLength).length =
          remaining.length - log.maxPayloadLength := List.length_drop
      have hmax := log.maxPayloadLength_pos
      have hnext := ih
        (a.setBuilder log.sessionId ⟨buffer ++ remaining.take log.maxPayloadLength,
          ((offset + align (log.maxPayloadLength + headerLength) : ℕ) : Int)⟩)
        (buffer ++ remaining.take log.maxPayloadLength)
        (offset + align (log.maxPayloadLength + headerLength))
        (remaining.drop log.maxPayloadLength)
        (Nat.dvd_add haligned (align_aligned _)) (by omega) (by omega)
        (builders_setBuilder _ _)
      rw [messagesOf_setBuilder, List.append_assoc, List.take_append_drop] at hnext
      simp only [hlast, if_false, views, List.filterMap_cons, Frame.view, assemble,
        List.foldl_cons]
      rw [onFragment_middle a _ rfl hbuilder rfl, nextTermOffset_aligned haligned, hbytes]
      exact hnext

/-- The fragments of a message make the message, whatever came before them. -/
theorem assemble_message (a : Assembler) (offset : ℕ) (message : List UInt8)
    (haligned : frameAlignment ∣ offset) :
    (assemble a (views log (messageFrames log offset message))).messagesOf log.sessionId =
      a.messagesOf log.sessionId ++ [message] := by
  unfold messageFrames
  split
  · simp only [views, List.filterMap_cons, List.filterMap_nil, Frame.view, assemble,
      List.foldl_cons, List.foldl_nil]
    rw [onFragment_whole a _ rfl, messagesOf_delegate]
  · rename_i hlong
    obtain ⟨fuel, hfuel⟩ : ∃ fuel, message.length = fuel + 1 := ⟨message.length - 1, by omega⟩
    have hbytes : (message.take log.maxPayloadLength).length = log.maxPayloadLength :=
      List.length_take_of_le (by omega)
    have hdrop : (message.drop log.maxPayloadLength).length =
        message.length - log.maxPayloadLength := List.length_drop
    have hmax := log.maxPayloadLength_pos
    have hrest := @assemble_rest log
      (a.setBuilder log.sessionId ⟨message.take log.maxPayloadLength,
        ((offset + align (log.maxPayloadLength + headerLength) : ℕ) : Int)⟩)
      (message.take log.maxPayloadLength) fuel
      (offset + align (log.maxPayloadLength + headerLength)) (message.drop log.maxPayloadLength)
      (Nat.dvd_add haligned (align_aligned _)) (by omega) (by omega) (builders_setBuilder _ _)
    rw [messagesOf_setBuilder, List.take_append_drop] at hrest
    rw [hfuel, fragmentFrames]
    simp only [hlong, if_false, views, List.filterMap_cons, Frame.view, assemble, List.foldl_cons]
    rw [onFragment_first a _ rfl, nextTermOffset_aligned haligned, hbytes]
    exact hrest

theorem claimedFrames_unplaced {offset : ℕ} {message : List UInt8}
    (hover : ¬ offset + claimedLength log message ≤ log.termLength) :
    views log (claimedFrames log offset message) = [] := by
  rw [claimedFrames, if_neg hover]
  split
  · rfl
  · rfl

theorem claimedFrames_placed {offset : ℕ} {message : List UInt8}
    (hfit : offset + claimedLength log message ≤ log.termLength) :
    claimedFrames log offset message = messageFrames log offset message := if_pos hfit

/-- From the frames of claims the assembler makes the messages that found a place. -/
theorem assemble_plan (a : Assembler) (tail : ℕ) (claimed : List (List UInt8))
    (haligned : frameAlignment ∣ tail) :
    (assemble a (views log (plan log tail claimed))).messagesOf log.sessionId =
      a.messagesOf log.sessionId ++ placed log tail claimed := by
  induction claimed generalizing a tail with
  | nil => exact (List.append_nil _).symm
  | cons message rest ih =>
    have hnext : frameAlignment ∣ tail + claimedLength log message :=
      Nat.dvd_add haligned (claimedLength_aligned message)
    rw [plan, views_append, assemble_append, ih _ _ hnext, placed]
    split
    · rename_i hfit
      rw [claimedFrames_placed hfit, assemble_message a _ message (min_aligned haligned),
        List.append_assoc, List.singleton_append]
    · rename_i hover
      rw [claimedFrames_unplaced hover]
      rfl

end Messages

section Joining

variable {log : Log}

theorem fragmentFrames_continue (fuel offset : ℕ) (remaining : List UInt8) (g : Fragment)
    (hg : g ∈ views log (fragmentFrames log fuel 0 offset remaining)) : isBegin g = false := by
  induction fuel generalizing offset remaining with
  | zero => exact absurd hg (by simp [views, fragmentFrames])
  | succ fuel ih =>
    rw [fragmentFrames, views, List.filterMap_cons, Frame.view] at hg
    rcases List.mem_cons.mp hg with rfl | hrest
    · simp only [isBegin]
      split
      · rfl
      · rfl
    · split at hrest
      · exact absurd hrest (by simp)
      · exact ih _ _ hrest

/-- Of the fragments of a message the first begins it, and no other. -/
theorem messageFrames_begin (offset : ℕ) (message : List UInt8) :
    ∃ first later, views log (messageFrames log offset message) = first :: later ∧
      isBegin first = true ∧ ∀ g ∈ later, isBegin g = false := by
  have hwhole : decide (unfragmented &&& beginFrag = beginFrag) = true := rfl
  have hfirst : decide (beginFrag &&& beginFrag = beginFrag) = true := rfl
  unfold messageFrames
  split
  · exact ⟨_, [], rfl, hwhole, by simp⟩
  · rename_i hlong
    obtain ⟨fuel, hfuel⟩ : ∃ fuel, message.length = fuel + 1 := ⟨message.length - 1, by omega⟩
    rw [hfuel, fragmentFrames]
    simp only [hlong, if_false]
    exact ⟨_, _, rfl, hfirst, fun g hg => fragmentFrames_continue _ _ _ g hg⟩

theorem begins_append (first second : List Fragment) :
    begins (first ++ second) = begins first + begins second := List.countP_append

theorem begins_message {first : Fragment} {later : List Fragment} (hfirst : isBegin first = true)
    (hlater : ∀ g ∈ later, isBegin g = false) : begins (first :: later) = 1 := by
  have hzero : later.countP isBegin = 0 :=
    List.countP_eq_zero.mpr fun g hg => by simp [hlater g hg]
  rw [begins, List.countP_cons_of_pos hfirst, hzero]

/-- An assembler that comes in later makes the messages that begin after that. -/
theorem assemble_joined (tail : ℕ) (claimed : List (List UInt8)) (haligned : frameAlignment ∣ tail)
    (k : ℕ) :
    (assemble empty ((views log (plan log tail claimed)).drop k)).messagesOf log.sessionId =
      (placed log tail claimed).drop (begins ((views log (plan log tail claimed)).take k)) := by
  induction claimed generalizing tail k with
  | nil => simp [plan, placed, views, assemble, messagesOf, empty]
  | cons message rest ih =>
    have hnext : frameAlignment ∣ tail + claimedLength log message :=
      Nat.dvd_add haligned (claimedLength_aligned message)
    by_cases hfit : min tail log.termLength + claimedLength log message ≤ log.termLength
    · cases k with
      | zero => exact assemble_plan empty tail (message :: rest) haligned
      | succ k =>
        obtain ⟨first, later, hviews, hfirst, hlater⟩ :=
          @messageFrames_begin log (min tail log.termLength) message
        have hjoined := ih (tail + claimedLength log message) hnext (k - later.length)
        have hbegin : ∀ g ∈ later.drop k, isBegin g = false := fun g hg =>
          hlater g (List.mem_of_mem_drop hg)
        have hcount : begins (first :: later.take k) = 1 :=
          begins_message hfirst fun g hg => hlater g (List.mem_of_mem_take hg)
        rw [plan, placed, if_pos hfit, views_append, claimedFrames_placed hfit, hviews,
          List.cons_append, List.drop_succ_cons, List.take_succ_cons, List.drop_append,
          List.take_append, ← List.cons_append, begins_append, hcount, Nat.add_comm 1,
          List.drop_succ_cons, assemble_append,
          assemble_ignored empty (later.drop k) hbegin fun g _ => rfl]
        exact hjoined
    · rw [plan, placed, if_neg hfit, views_append, claimedFrames_unplaced hfit, List.nil_append]
      exact ih _ hnext k

end Joining

end AeronFast.FragmentAssembly
