import AeronFast.TermAppends

/-!
A term while it is being appended to and read. The reader goes from frame to
frame, looks at the length of the next one and stops where none is shown; it
hands over every frame but the padding. Whatever the interleaving of the
stores of all appends with the steps of the polls, the handler gets the frames
of the messages in the order in which their places were claimed, each once and
as it was written.
-/
namespace AeronFast.TermReads

open LabelledRuns Interleaving FlatMemory TermBuffer TermAppends

/-- Where a poll stands: before the test of its loop, with the fragments read so far and the
limit, or at a frame whose length it has read. -/
inductive ReadPoint
  | idle
  | loop (fragmentsRead fragmentsLimit : ℕ)
  | frame (fragmentsRead fragmentsLimit fragmentOffset frameLength : ℕ)
  deriving DecidableEq

/-- The image: the offset it reads from, and the fragments its handler got. -/
structure Reader where
  termOffset : ℕ
  point : ReadPoint
  handled : List Fragment

variable (log : Log)

/-- One step of `TermReader::read`: the test of the loop with the read of the length, or what
is done with a frame. -/
def readStep (memory : Memory) (r : Reader) : Option Reader :=
  match r.point with
  | .idle => none
  | .loop fragmentsRead fragmentsLimit =>
    if fragmentsRead < fragmentsLimit ∧ r.termOffset < log.termLength then
      let frameLength := frameLengthVolatile log memory r.termOffset
      if frameLength ≤ 0 then some { r with point := .idle }
      else some { r with
        termOffset := r.termOffset + align frameLength.toNat
        point := .frame fragmentsRead fragmentsLimit r.termOffset frameLength.toNat }
    else some { r with point := .idle }
  | .frame fragmentsRead fragmentsLimit fragmentOffset frameLength =>
    if isPaddingFrame log memory fragmentOffset then
      some { r with point := .loop fragmentsRead fragmentsLimit }
    else some { r with
      handled := r.handled ++ [fragmentAt log memory fragmentOffset frameLength]
      point := .loop (fragmentsRead + 1) fragmentsLimit }

/-- The threads that append, and the image that is polled. -/
structure System (T : Type) where
  pool : Pool T Shared (List UInt8) AppendPoint
  reader : Reader

inductive Move (T : Type)
  | append (a : Action T (List UInt8))
  | poll (fragmentsLimit : ℕ)
  | read

section Runs

variable {T : Type} [DecidableEq T]

def SystemStep (s : System T) (m : Move T) (s' : System T) : Prop :=
  match m with
  | .append a => PoolStep .claim (advance log) s.pool a s'.pool ∧ s'.reader = s.reader
  | .poll fragmentsLimit =>
      s.reader.point = .idle ∧
        s' = { s with reader := { s.reader with point := .loop 0 fragmentsLimit } }
  | .read => ∃ r, readStep log s.pool.shared.memory s.reader = some r ∧ s' = { s with reader := r }

/-- An empty term, no append in progress, and an image at its start. -/
def startSystem : System T := ⟨idle (emptyTerm log), ⟨0, .idle, []⟩⟩

end Runs

variable {log} {T : Type}

/-- The frames for which places were claimed. -/
def planned (log : Log) (s : System T) : List Frame := plan log 0 s.pool.shared.claimed

/-- The reader has gone over published frames from the start of the term, and has handed over
all of them, except the one it may be at. -/
inductive Follows (log : Log) (frames : List Frame) (memory : Memory) : Reader → Prop
  | between {done rest : List Frame} {termOffset : ℕ} {point : ReadPoint} :
      (∀ n limit offset length, point ≠ .frame n limit offset length) →
      frames = done ++ rest → Chained 0 done termOffset →
      (∀ f ∈ done, Published log memory f) →
      Follows log frames memory ⟨termOffset, point, done.filterMap (Frame.view log)⟩
  | upon {done rest : List Frame} {f : Frame} {termOffset n limit : ℕ} :
      frames = done ++ f :: rest → Chained 0 (done ++ [f]) termOffset →
      (∀ g ∈ done ++ [f], Published log memory g) →
      Follows log frames memory
        ⟨termOffset, .frame n limit f.offset f.length, done.filterMap (Frame.view log)⟩

section Steps

variable {frames more : List Frame} {memory memory' : Memory} {r r' : Reader}

/-- More frames may be claimed, and what is published stays. -/
theorem follows_mono (h : Follows log frames memory r)
    (hkept : ∀ f ∈ frames, Published log memory f → Published log memory' f) :
    Follows log (frames ++ more) memory' r := by
  cases h with
  | @between done rest termOffset point hpoint hsplit hchain hpublished =>
    subst hsplit
    refine .between hpoint (List.append_assoc done rest more) hchain fun f hf => ?_
    exact hkept f (List.mem_append_left _ hf) (hpublished f hf)
  | @upon done rest f termOffset n limit hsplit hchain hpublished =>
    subst hsplit
    refine .upon (by simp : _ = done ++ f :: (rest ++ more)) hchain fun g hg => ?_
    have hmem : g ∈ done ++ f :: rest := by
      rcases List.mem_append.mp hg with hdone | hlast
      · exact List.mem_append_left _ hdone
      · rw [List.mem_singleton.mp hlast]
        exact List.mem_append_right _ List.mem_cons_self
    exact hkept g hmem (hpublished g hg)

/-- What is handed over so far is the start of what is to be handed over. -/
theorem follows_handled (h : Follows log frames memory r) :
    r.handled <+: frames.filterMap (Frame.view log) := by
  cases h with
  | between hpoint hsplit hchain hpublished =>
    rw [hsplit, List.filterMap_append]
    exact List.prefix_append _ _
  | upon hsplit hchain hpublished =>
    rw [hsplit, List.filterMap_append]
    exact List.prefix_append _ _

/-- What a reader may rely on: the frames lie one behind the other up to the end, each is
published or shows no length, and nothing is behind them. -/
structure Readable (log : Log) (frames : List Frame) (stop : ℕ) (memory : Memory) : Prop where
  chained : Chained 0 frames stop
  placed : ∀ f ∈ frames, Placed log f
  shown : ∀ f ∈ frames, Published log memory f ∨ frameLengthVolatile log memory f.offset ≤ 0
  beyond : ∀ a, stop ≤ a → memory a = 0

theorem readable_of_intact {p : Pool T Shared (List UInt8) AppendPoint} (h : Intact log p) :
    Readable log (plan log 0 p.shared.claimed)
      (min (total log p.shared.claimed) log.termLength) p.shared.memory where
  chained := by
    have hchain := @plan_chained log 0 p.shared.claimed (Nat.dvd_zero _)
    rwa [Nat.zero_add, Nat.zero_min] at hchain
  placed := plan_placed _
  shown := by
    intro f hf
    rcases h.each f hf with hpublished | ⟨t, call, point, hframe, hmem⟩
    · exact Or.inl hpublished
    · exact Or.inr (unpublished_of_pending h hframe hmem)
  beyond := h.beyond

theorem frameLength_beyond {stop : ℕ} (h : Readable log frames stop memory) :
    frameLengthVolatile log memory stop ≤ 0 := by
  have hload : load memory stop 4 = load blank stop 4 := by
    refine List.map_congr_left fun i _ => ?_
    exact h.beyond (stop + i) (Nat.le_add_right _ _)
  have hblank := @getInt32_blank log stop
  rw [getInt32, ← hload] at hblank
  exact Int.le_of_eq hblank

theorem chained_unique {start stop stop' : ℕ} {frames : List Frame}
    (h : Chained start frames stop) (h' : Chained start frames stop') : stop = stop' := by
  induction frames generalizing start with
  | nil => exact (h : start = stop).symm.trans h'
  | cons frame rest ih => exact ih h.2 h'.2

theorem chained_split {start stop : ℕ} {first second : List Frame}
    (h : Chained start (first ++ second) stop) :
    ∃ mid, Chained start first mid ∧ Chained mid second stop := by
  induction first generalizing start with
  | nil => exact ⟨start, rfl, h⟩
  | cons frame rest ih =>
    obtain ⟨mid, hfirst, hsecond⟩ := ih h.2
    exact ⟨mid, ⟨h.1, hfirst⟩, hsecond⟩

/-- What stands where the reader has got to: nothing, or the next frame. -/
theorem next_frame {done rest : List Frame} {offset stop : ℕ}
    (h : Readable log (done ++ rest) stop memory) (hchain : Chained 0 done offset) :
    (rest = [] ∧ offset = stop) ∨ ∃ f later, rest = f :: later ∧ f.offset = offset := by
  obtain ⟨mid, hdone, hrest⟩ := chained_split h.chained
  obtain rfl := chained_unique hchain hdone
  cases rest with
  | nil => exact Or.inl ⟨rfl, hrest⟩
  | cons f later => exact Or.inr ⟨f, later, rfl, hrest.1⟩

/-- A length that is shown is that of a published frame. -/
theorem follows_length {done rest : List Frame} {offset stop n limit : ℕ}
    (h : Readable log (done ++ rest) stop memory) (hchain : Chained 0 done offset)
    (hpublished : ∀ f ∈ done, Published log memory f)
    (hlength : ¬ frameLengthVolatile log memory offset ≤ 0) :
    Follows log (done ++ rest) memory
      ⟨offset + align (frameLengthVolatile log memory offset).toNat,
        .frame n limit offset (frameLengthVolatile log memory offset).toNat,
        done.filterMap (Frame.view log)⟩ := by
  rcases next_frame h hchain with ⟨-, rfl⟩ | ⟨f, later, rfl, rfl⟩
  · exact absurd (frameLength_beyond h) hlength
  · have hmem : f ∈ done ++ f :: later := List.mem_append_right _ List.mem_cons_self
    have hf : Published log memory f := (h.shown f hmem).resolve_right hlength
    rw [hf.frameLength (h.placed f hmem), Int.toNat_natCast]
    refine .upon rfl (chained_append hchain ⟨rfl, rfl⟩) fun g hg => ?_
    rcases List.mem_append.mp hg with hdone | hlast
    · exact hpublished g hdone
    · rw [List.mem_singleton.mp hlast]
      exact hf

/-- A frame that was seen is handed over as it was written, or passed over if it is padding. -/
theorem follows_frame {done rest : List Frame} {f : Frame} {offset stop n limit : ℕ}
    (h : Readable log (done ++ f :: rest) stop memory) (hchain : Chained 0 (done ++ [f]) offset)
    (hpublished : ∀ g ∈ done ++ [f], Published log memory g)
    (hstep : readStep log memory
      ⟨offset, .frame n limit f.offset f.length, done.filterMap (Frame.view log)⟩ = some r') :
    Follows log (done ++ f :: rest) memory r' := by
  have hf := hpublished f (List.mem_append_right _ (List.mem_singleton_self f))
  have hplaced := h.placed f (List.mem_append_right _ List.mem_cons_self)
  have hsplit : done ++ f :: rest = (done ++ [f]) ++ rest := by simp
  simp only [readStep, hf.isPaddingFrame hplaced] at hstep
  cases hview : f.view log with
  | none =>
    have hsame : done.filterMap (Frame.view log) = (done ++ [f]).filterMap (Frame.view log) := by
      simp [hview]
    simp only [hview, Option.isNone_none, if_true] at hstep
    obtain rfl := Option.some.inj hstep
    rw [hsame]
    exact .between (by simp) hsplit hchain hpublished
  | some g =>
    have hmore : done.filterMap (Frame.view log) ++ [g] =
        (done ++ [f]).filterMap (Frame.view log) := by
      simp [hview]
    simp only [hview, Option.isNone_some, hf.fragmentAt hplaced g hview] at hstep
    obtain rfl := Option.some.inj hstep
    rw [hmore]
    exact .between (by simp) hsplit hchain hpublished

/-- A new poll goes on where the last one stopped. -/
theorem follows_poll {limit : ℕ} (h : Follows log frames memory r) (hidle : r.point = .idle) :
    Follows log frames memory { r with point := .loop 0 limit } := by
  cases h with
  | between hpoint hsplit hchain hpublished => exact .between (by simp) hsplit hchain hpublished
  | upon hsplit hchain hpublished => exact absurd hidle (by simp)

theorem follows_read {stop : ℕ} (hreadable : Readable log frames stop memory)
    (h : Follows log frames memory r) (hstep : readStep log memory r = some r') :
    Follows log frames memory r' := by
  cases h with
  | @between done rest termOffset point hpoint hsplit hchain hpublished =>
    subst hsplit
    cases point with
    | idle => exact absurd hstep (by simp [readStep])
    | loop n limit =>
      simp only [readStep] at hstep
      split at hstep
      · split at hstep
        · obtain rfl := Option.some.inj hstep
          exact .between (by simp) rfl hchain hpublished
        · rename_i hlength
          obtain rfl := Option.some.inj hstep
          exact follows_length hreadable hchain hpublished hlength
      · obtain rfl := Option.some.inj hstep
        exact .between (by simp) rfl hchain hpublished
    | frame n limit offset length => exact absurd rfl (hpoint n limit offset length)
  | @upon done rest f termOffset n limit hsplit hchain hpublished =>
    subst hsplit
    exact follows_frame hreadable hchain hpublished hstep

end Steps

section Systems

variable [DecidableEq T] {s s' : System T}

/-- The term is intact and the reader follows its frames. -/
def Sound (log : Log) (s : System T) : Prop :=
  Intact log s.pool ∧ Follows log (planned log s) s.pool.shared.memory s.reader

omit [DecidableEq T] in
theorem sound_start : Sound log (startSystem log : System T) := by
  have hempty : planned log (startSystem log : System T) = [] ++ [] := rfl
  have hchain : Chained 0 [] 0 := rfl
  exact ⟨intact_empty, .between (by simp) hempty hchain (by simp)⟩

theorem sound_step {m : Move T} (h : Sound log s)
    (hbound : total log s.pool.shared.claimed < 4294967296) (hstep : SystemStep log s m s') :
    Sound log s' := by
  obtain ⟨hintact, hfollows⟩ := h
  cases m with
  | append a =>
    obtain ⟨hpool, hreader⟩ := hstep
    have hnext : Intact log s'.pool := by
      cases a with
      | start t message => exact intact_start hintact hpool
      | advance t => exact intact_advance hintact hbound hpool
    obtain ⟨more, hmore⟩ := plan_grows hpool
    refine ⟨hnext, ?_⟩
    rw [planned, hmore, hreader]
    exact follows_mono hfollows fun f hf hpublished => published_kept hintact hpool hf hpublished
  | poll limit =>
    obtain ⟨hidle, rfl⟩ := hstep
    exact ⟨hintact, follows_poll hfollows hidle⟩
  | read =>
    obtain ⟨r, hread, rfl⟩ := hstep
    exact ⟨hintact, follows_read (readable_of_intact hintact) hfollows hread⟩

/-- The image has nothing more to read: its poll is over, and the next one would not find a
frame. -/
def Drained (log : Log) (s : System T) : Prop :=
  s.reader.point = .idle ∧ (log.termLength ≤ s.reader.termOffset ∨
    frameLengthVolatile log s.pool.shared.memory s.reader.termOffset ≤ 0)

omit [DecidableEq T] in
theorem handled_all (h : Sound log s) (hquiet : Quiescent s.pool) (hdrained : Drained log s) :
    s.reader.handled = (planned log s).filterMap (Frame.view log) := by
  obtain ⟨pool, r⟩ := s
  obtain ⟨hintact, hfollows⟩ := h
  obtain ⟨hidle, hend⟩ := hdrained
  have hreadable := readable_of_intact hintact
  have hall : ∀ f ∈ plan log 0 pool.shared.claimed, Published log pool.shared.memory f := by
    intro f hf
    rcases hintact.each f hf with hpublished | ⟨t, call, point, hframe, -⟩
    · exact hpublished
    · rw [hquiet t] at hframe
      cases hframe
  cases hfollows with
  | @between done rest termOffset point hpoint hsplit hchain hpublished =>
    simp only [planned] at hsplit ⊢
    rw [hsplit] at hreadable hall
    rcases next_frame hreadable hchain with ⟨rfl, -⟩ | ⟨f, later, rfl, rfl⟩
    · rw [hsplit, List.append_nil]
    · have hmem : f ∈ done ++ f :: later := List.mem_append_right _ List.mem_cons_self
      have hplaced := hreadable.placed f hmem
      have hwithin := hplaced.within
      have hspan := hplaced.headerLength_le_span
      have hlong := hplaced.long
      unfold headerLength at hspan hlong
      unfold Frame.next at hwithin
      rcases hend with hterm | hlength
      · dsimp only at hterm
        omega
      · dsimp only at hlength
        rw [(hall f hmem).frameLength hplaced] at hlength
        omega
  | upon hsplit hchain hpublished => exact absurd hidle (by simp)

theorem claimed_step {m : Move T} (hstep : SystemStep log s m s') :
    total log s.pool.shared.claimed ≤ total log s'.pool.shared.claimed := by
  cases m with
  | append a => exact total_grows hstep.1
  | poll limit =>
    obtain ⟨-, rfl⟩ := hstep
    exact Nat.le_refl _
  | read =>
    obtain ⟨r, -, rfl⟩ := hstep
    exact Nat.le_refl _

/-- Every state of every run is sound, as long as the tail stays within its 32 bits. -/
theorem sound_run {moves : List (Move T)} (hrun : Run (SystemStep log) (startSystem log) moves s)
    (hbound : total log s.pool.shared.claimed < 4294967296) : Sound log s := by
  revert hbound
  apply hrun.invariant (P := fun _ s =>
    total log s.pool.shared.claimed < 4294967296 → Sound log s)
  · exact fun _ => sound_start
  · intro moves u m v _ ih hstep hbound
    have hbefore := claimed_step hstep
    exact sound_step (ih (by omega)) (by omega) hstep

end Systems

section Schedules

variable [DecidableEq T]

/-- The system after a move, if it can be made. -/
def performMove (log : Log) (s : System T) : Move T → Option (System T)
  | .append a => (stepPool .claim (advance log) s.pool a).map fun pool => { s with pool := pool }
  | .poll fragmentsLimit =>
    match s.reader.point with
    | .idle => some { s with reader := { s.reader with point := .loop 0 fragmentsLimit } }
    | _ => none
  | .read => (readStep log s.pool.shared.memory s.reader).map fun r => { s with reader := r }

theorem systemStep_of_performMove {s s' : System T} {m : Move T}
    (h : performMove log s m = some s') : SystemStep log s m s' := by
  cases m with
  | append a =>
    obtain ⟨pool, hpool, rfl⟩ := Option.map_eq_some_iff.mp h
    exact ⟨poolStep_of_stepPool hpool, rfl⟩
  | poll fragmentsLimit =>
    simp only [performMove] at h
    split at h
    · rename_i hidle
      exact ⟨hidle, (Option.some.inj h).symm⟩
    · cases h
  | read =>
    obtain ⟨r, hread, rfl⟩ := Option.map_eq_some_iff.mp h
    exact ⟨r, hread, rfl⟩

/-- Moves that can be made one after another are a run. -/
theorem exists_run_of_moves (log : Log) (moves : List (Move T)) (test : System T → Bool)
    (h : (moves.foldlM (performMove log) (startSystem log)).any test = true) :
    ∃ s, Run (SystemStep log) (startSystem log) moves s ∧ test s = true := by
  cases hs : moves.foldlM (performMove log) (startSystem log) with
  | none =>
    rw [hs] at h
    cases h
  | some s =>
    rw [hs] at h
    exact ⟨s, (Run.of_foldlM hs).mono fun _ _ _ => systemStep_of_performMove, h⟩

end Schedules

/-- However the stores of all appends and the steps of the polls are interleaved, the handler
has got the first of the frames in the order of the claims, each once and as it was written; and
all of them once no append is under way and the image finds nothing more. -/
theorem frames_in_order [DecidableEq T] (log : Log) (moves : List (Move T)) (s : System T)
    (hrun : Run (SystemStep log) (startSystem log) moves s)
    (hbound : total log s.pool.shared.claimed < 4294967296) :
    s.reader.handled <+: (planned log s).filterMap (Frame.view log) ∧
      (Quiescent s.pool → Drained log s →
        s.reader.handled = (planned log s).filterMap (Frame.view log)) := by
  have hsound := sound_run hrun hbound
  exact ⟨follows_handled hsound.2, handled_all hsound⟩

end AeronFast.TermReads
