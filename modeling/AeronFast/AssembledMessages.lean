import AeronFast.FragmentAssembly
import AeronFast.Fragmentation

/-!
What comes out of a term that many threads append to while it is read. A
handler without an assembler gets the slices of the messages, in the order in
which their places were claimed. With an assembler, which may come in late and
serve other sessions as well, the messages come out whole, in the same order
and byte for byte.
-/
namespace AeronFast.AssembledMessages

open LabelledRuns Interleaving TermBuffer TermAppends TermReads FragmentAssembly Assembler
open Fragmentation

section Slices

/-- A long message is one slice of the payload size and the slices of the rest. -/
theorem slices_cons {payload : ℕ} {message : List UInt8} (hpayload : 0 < payload)
    (hlong : payload < message.length) :
    slices payload message = message.take payload :: slices payload (message.drop payload) := by
  have hcount : (message.length + payload - 1) / payload =
      (message.length - payload + payload - 1) / payload + 1 := by
    rw [← Nat.add_div_right _ hpayload]
    congr 1
    omega
  have hnext : ∀ i, (message.drop ((i + 1) * payload)).take payload =
      ((message.drop payload).drop (i * payload)).take payload := by
    intro i
    rw [List.drop_drop, Nat.succ_mul, Nat.add_comm]
  simp only [slices, hcount, List.range_succ_eq_map, List.map_cons, List.map_map, Nat.zero_mul,
    List.drop_zero, List.length_drop]
  congr 1
  exact List.map_congr_left fun i _ => hnext i

/-- The payloads in which a handler gets a message. -/
def pieces (payload : ℕ) (message : List UInt8) : List (List UInt8) :=
  if message = [] then [[]] else slices payload message

variable {log : Log}

theorem fragmentFrames_payloads (fuel : ℕ) (flags : UInt8) (offset : ℕ) (remaining : List UInt8)
    (hpos : 0 < remaining.length) (hfuel : remaining.length ≤ fuel) :
    (views log (fragmentFrames log fuel flags offset remaining)).map Fragment.payload =
      slices log.maxPayloadLength remaining := by
  induction fuel generalizing flags offset remaining with
  | zero => omega
  | succ fuel ih =>
    rw [fragmentFrames, views, List.filterMap_cons, Frame.view]
    by_cases hlast : remaining.length ≤ log.maxPayloadLength
    · simp only [hlast, if_true, List.filterMap_nil, List.map_cons, List.map_nil,
        List.take_of_length_le hlast, slices_whole _ _ hpos hlast]
    · have hdrop : (remaining.drop log.maxPayloadLength).length =
          remaining.length - log.maxPayloadLength := List.length_drop
      have hmax := log.maxPayloadLength_pos
      simp only [hlast, if_false, List.map_cons]
      rw [slices_cons hmax (by omega)]
      exact congrArg _ (ih _ _ _ (by omega) (by omega))

theorem messageFrames_payloads (offset : ℕ) (message : List UInt8) :
    (views log (messageFrames log offset message)).map Fragment.payload =
      pieces log.maxPayloadLength message := by
  unfold messageFrames pieces
  by_cases hempty : message = []
  · subst hempty
    rfl
  · have hpos := List.length_pos_iff.mpr hempty
    rw [if_neg hempty]
    split
    · rename_i hfit
      rw [slices_whole _ _ hpos hfit]
      rfl
    · exact fragmentFrames_payloads _ _ _ _ hpos (Nat.le_refl _)

theorem plan_payloads (tail : ℕ) (claimed : List (List UInt8)) :
    (views log (plan log tail claimed)).map Fragment.payload =
      (placed log tail claimed).flatMap (pieces log.maxPayloadLength) := by
  induction claimed generalizing tail with
  | nil => rfl
  | cons message rest ih =>
    rw [plan, views_append, List.map_append, ih, placed]
    split
    · rename_i hfit
      rw [claimedFrames_placed hfit, messageFrames_payloads, List.flatMap_cons]
    · rename_i hover
      rw [claimedFrames_unplaced hover, List.map_nil, List.nil_append]

end Slices

section Runs

variable {T : Type} [DecidableEq T] (log : Log) (moves : List (Move T)) (s : System T)

/-- Without an assembler the handler gets, whatever the interleaving, the first of the slices of
the messages that found a place, in the order of the claims; and all of them once no append is
under way and the image finds nothing more. -/
theorem slices_in_order (hrun : Run (SystemStep log) (startSystem log) moves s)
    (hbound : total log s.pool.shared.claimed < 4294967296) :
    s.reader.handled.map Fragment.payload <+:
        (placed log 0 s.pool.shared.claimed).flatMap (pieces log.maxPayloadLength) ∧
      (Quiescent s.pool → Drained log s → s.reader.handled.map Fragment.payload =
        (placed log 0 s.pool.shared.claimed).flatMap (pieces log.maxPayloadLength)) := by
  obtain ⟨hfirst, hall⟩ := frames_in_order log moves s hrun hbound
  rw [← plan_payloads]
  refine ⟨List.IsPrefix.map _ hfirst, fun hquiet hdrained => ?_⟩
  rw [hall hquiet hdrained]
  rfl

/-- An assembler that is given what the handler gets from some fragment on, with any fragments of
other sessions in between, makes the first of the messages that begin there, each whole and in
the order of the claims; and all of them once no append is under way and the image finds nothing
more. -/
theorem messages_in_order (hrun : Run (SystemStep log) (startSystem log) moves s)
    (hbound : total log s.pool.shared.claimed < 4294967296) (k : ℕ)
    (hk : k ≤ s.reader.handled.length) (fragments : List Fragment)
    (hown : fragments.filter (fun g => g.sessionId = log.sessionId) = s.reader.handled.drop k) :
    (assemble empty fragments).messagesOf log.sessionId <+:
        (placed log 0 s.pool.shared.claimed).drop (begins (s.reader.handled.take k)) ∧
      (Quiescent s.pool → Drained log s →
        (assemble empty fragments).messagesOf log.sessionId =
          (placed log 0 s.pool.shared.claimed).drop (begins (s.reader.handled.take k))) := by
  obtain ⟨⟨more, hmore⟩, hall⟩ := frames_in_order log moves s hrun hbound
  have hsame : (assemble empty fragments).messagesOf log.sessionId =
      (assemble empty (s.reader.handled.drop k)).messagesOf log.sessionId := by
    rw [← hown]
    exact (alike_assemble fragments ⟨rfl, rfl⟩).2
  have hjoined := @assemble_joined log 0 s.pool.shared.claimed (Nat.dvd_zero _) k
  have hviews : views log (plan log 0 s.pool.shared.claimed) = s.reader.handled ++ more :=
    hmore.symm
  rw [hsame]
  rw [hviews, List.drop_append_of_le_length hk, List.take_append_of_le_length hk,
    assemble_append] at hjoined
  refine ⟨?_, fun hquiet hdrained => ?_⟩
  · rw [← hjoined]
    exact messagesOf_assemble _ more
  · have hnone : more = [] := by
      have hlength := congrArg List.length hmore
      rw [← hall hquiet hdrained, List.length_append] at hlength
      exact List.eq_nil_of_length_eq_zero (by omega)
    subst hnone
    exact hjoined

end Runs

def smallLog : Log where
  host := .little
  sessionId := 7
  streamId := 1001
  termId := 5
  termLength := 256
  maxPayloadLength := 32
  termLength_aligned := by decide
  termLength_le := by decide
  maxPayloadLength_aligned := by decide
  maxPayloadLength_pos := by decide

def longMessage : List UInt8 := List.replicate 40 9

def shortMessage : List UInt8 := [1, 2, 3]

def advances (t : Bool) (n : ℕ) : List (Move Bool) := List.replicate n (.append (.advance t))

def reads (n : ℕ) : List (Move Bool) := List.replicate n .read

/-- A long message claims its place first and a short one is published first; a third one does
not fit. The image is polled before and after the long one is published, two fragments at a
time. -/
def overtakenAppends : List (Move Bool) :=
  List.flatten
    [[.append (.start true longMessage), .append (.start false shortMessage)],
      advances true 1, advances false 12, [.poll 2], reads 1,
      [.append (.start false longMessage)], advances false 11, advances true 24,
      [.poll 2], reads 5, [.poll 2], reads 5]

/-- The first fragment of a message of another session. -/
def otherFragment : Fragment := ⟨64, beginFrag, 0, 8, List.replicate 32 4⟩

theorem overtakenAppends_end :
    ∃ s, Run (SystemStep smallLog) (startSystem smallLog) overtakenAppends s ∧
      s.pool.shared.claimed = [longMessage, shortMessage, longMessage] ∧
      (Quiescent s.pool ∧ Drained smallLog s) ∧
      (s.reader.handled.length = 3 ∧ begins (s.reader.handled.take 1) = 1) ∧
      ∀ g ∈ s.reader.handled, g.sessionId = 7 := by
  obtain ⟨s, hrun, htest⟩ := exists_run_of_moves smallLog overtakenAppends
    (fun s => s.pool.shared.claimed = [longMessage, shortMessage, longMessage] &&
      ((s.pool.frames true).isNone && (s.pool.frames false).isNone &&
        s.reader.point = .idle && smallLog.termLength ≤ s.reader.termOffset) &&
      (s.reader.handled.length = 3 && begins (s.reader.handled.take 1) = 1) &&
      s.reader.handled.all (fun g => g.sessionId = 7)) (by decide +kernel)
  simp only [Bool.and_eq_true, decide_eq_true_eq, Option.isNone_iff_eq_none,
    List.all_eq_true] at htest
  obtain ⟨⟨⟨hclaimed, ⟨⟨htrue, hfalse⟩, hidle⟩, hend⟩, hhandled⟩, hsessions⟩ := htest
  refine ⟨s, hrun, hclaimed, ⟨fun t => ?_, hidle, Or.inl hend⟩, hhandled, hsessions⟩
  cases t with
  | true => exact htrue
  | false => exact hfalse

/-- The slices come in the order of the claims, though the short message was published first. -/
theorem overtakenAppends_slices :
    ∃ s, Run (SystemStep smallLog) (startSystem smallLog) overtakenAppends s ∧
      s.reader.handled.map Fragment.payload =
        [List.replicate 32 9, List.replicate 8 9, shortMessage] := by
  obtain ⟨s, hrun, hclaimed, ⟨hquiet, hdrained⟩, -⟩ := overtakenAppends_end
  have h := (slices_in_order smallLog overtakenAppends s hrun
    (by rw [hclaimed]; decide)).2 hquiet hdrained
  rw [hclaimed] at h
  exact ⟨s, hrun, h⟩

/-- An assembler that is there from the start, and one that misses the first fragment. -/
theorem overtakenAppends_messages :
    ∃ s, Run (SystemStep smallLog) (startSystem smallLog) overtakenAppends s ∧
      (assemble empty (otherFragment :: s.reader.handled)).messagesOf 7 =
        [longMessage, shortMessage] ∧
      (assemble empty (otherFragment :: s.reader.handled.drop 1)).messagesOf 7 =
        [shortMessage] := by
  obtain ⟨s, hrun, hclaimed, ⟨hquiet, hdrained⟩, ⟨hlength, hbegins⟩, hsessions⟩ :=
    overtakenAppends_end
  have hown : ∀ k, (otherFragment :: s.reader.handled.drop k).filter
      (fun g => g.sessionId = smallLog.sessionId) = s.reader.handled.drop k := by
    intro k
    rw [List.filter_cons_of_neg (by decide)]
    exact List.filter_eq_self.mpr fun g hg =>
      decide_eq_true (hsessions g (List.mem_of_mem_drop hg))
  have hall := (messages_in_order smallLog overtakenAppends s hrun (by rw [hclaimed]; decide) 0
    (Nat.zero_le _) _ (hown 0)).2 hquiet hdrained
  have hlate := (messages_in_order smallLog overtakenAppends s hrun (by rw [hclaimed]; decide) 1
    (by omega) _ (hown 1)).2 hquiet hdrained
  rw [hclaimed, hbegins] at hlate
  rw [hclaimed] at hall
  exact ⟨s, hrun, hall, hlate⟩

end AeronFast.AssembledMessages
