import AeronFast.ChannelUri

/-!
The texts that `ChannelUri::parse` takes for a channel. They are described by
their parts, each free of the characters that end it, and the scan accepts
exactly these. What is refused is refused at the first character that no
channel has in that place.
-/
namespace AeronFast.UriGrammar

open ChannelUri

/-- What stands before the media. -/
def head (spy : Bool) : List Char := (if spy then spyPrefix else []) ++ aeronPrefix

def qualifier (spy : Bool) : List Char := if spy then spyQualifier else []

section Heads

theorem startsWith_iff (input : List Char) (position : ℕ) (text : List Char) :
    startsWith input position text = true ↔ text <+: input.drop position := by
  unfold startsWith
  split
  · rename_i hshort
    simp only [Bool.false_eq_true, false_iff]
    intro hbegins
    have hlength := hbegins.length_le
    rw [List.length_drop] at hlength
    omega
  · simp only [List.all_eq_true, List.mem_range, beq_iff_eq, List.prefix_iff_getElem?,
      List.getElem?_drop]
    constructor
    · intro hall i hi
      rw [hall i hi, List.getElem?_eq_getElem hi]
    · intro hall i hi
      rw [hall i hi, List.getElem?_eq_getElem hi]

theorem head_length (spy : Bool) :
    (head spy).length = (if spy then spyPrefix.length else 0) + aeronPrefix.length := by
  cases spy with
  | false => rfl
  | true => rfl

/-- A channel of its own does not begin as one of a spy does. -/
theorem startsWith_spyPrefix (spy : Bool) (body : List Char) :
    startsWith (head spy ++ body) 0 spyPrefix = spy := by
  cases spy with
  | true =>
    rw [startsWith_iff, List.drop_zero, head, if_pos rfl, List.append_assoc]
    exact List.prefix_append _ _
  | false =>
    have hcolon : (head false ++ body)[5]? = some ':' := rfl
    have hdash : spyPrefix[5]? = some '-' := rfl
    refine Bool.eq_false_iff.mpr fun hspy => ?_
    rw [startsWith_iff, List.drop_zero, List.prefix_iff_getElem?] at hspy
    have hfifth := hspy 5 (by decide)
    rw [← List.getElem?_eq_getElem, hcolon, hdash] at hfifth
    exact absurd hfifth (by decide)

theorem parse_head (spy : Bool) (body : List Char) : parse (head spy ++ body) =
    (scanFrom (head spy).length body initial) >>= finish (qualifier spy) := by
  have haeron : startsWith (head spy ++ body) (if spy then spyPrefix.length else 0) aeronPrefix =
      true := by
    rw [startsWith_iff]
    refine ⟨body, ?_⟩
    cases spy with
    | true => simp [head]
    | false => simp [head]
  simp only [parse, startsWith_spyPrefix, haeron, if_true, ← head_length, List.drop_left]
  rfl

theorem parse_cases (uri : List Char) : (∃ spy body, uri = head spy ++ body) ∨
    parse uri = .error .notAeron := by
  cases haeron : startsWith uri (if startsWith uri 0 spyPrefix then spyPrefix.length else 0)
    aeronPrefix with
  | false =>
    refine Or.inr ?_
    simp only [parse, haeron]
    rfl
  | true =>
    refine Or.inl ?_
    rw [startsWith_iff] at haeron
    obtain ⟨body, hbody⟩ := haeron
    cases hspy : startsWith uri 0 spyPrefix with
    | false =>
      refine ⟨false, body, ?_⟩
      simpa [hspy, head] using hbody.symm
    | true =>
      rw [startsWith_iff] at hspy
      obtain ⟨rest, rfl⟩ := hspy
      refine ⟨true, body, ?_⟩
      simp only [startsWith_iff, List.drop_zero] at hbody
      simp_all [head]

end Heads

/-- A character that goes on with what is being read, rather than ending it. -/
def Ordinary : State → Char → Prop
  | .media, c => c ≠ '?' ∧ c ≠ ':' ∧ c ≠ '|' ∧ c ≠ '='
  | .paramsKey, c => c ≠ '=' ∧ c ≠ '|'
  | .paramsValue, c => c ≠ '|'

/-- A parameter whose parts can be told apart once it is written. -/
structure Formed (p : Param) : Prop where
  named : p.1 ≠ []
  key : ∀ c ∈ p.1, Ordinary .paramsKey c
  value : ∀ c ∈ p.2, Ordinary .paramsValue c

/-- A channel by the parts of its text, with the parameters as they are written. -/
structure Written where
  spy : Bool
  media : List Char
  params : List Param
  plain : ∀ c ∈ media, Ordinary .media c
  formed : ∀ p ∈ params, Formed p
  bare : params = [] → media = ipcMedia ∨ media = udpMedia

def Written.text (w : Written) : List Char := head w.spy ++ (w.media ++ paramsText w.params)

/-- The channel that is meant: of the values of a key the first counts. -/
def Written.value (w : Written) : ChannelUri :=
  ⟨qualifier w.spy, w.media, w.params.toFinmap⟩

section Scanning

theorem scanFrom_append (i : ℕ) (first second : List Char) (scan : Scan) :
    scanFrom i (first ++ second) scan =
      scanFrom i first scan >>= scanFrom (i + first.length) second := by
  induction first generalizing i scan with
  | nil => rfl
  | cons c rest ih =>
    have hindex : i + 1 + rest.length = i + (rest.length + 1) := by omega
    cases hstep : step i c scan with
    | error e => simp only [scanFrom, List.cons_append, hstep, bind, Except.bind]
    | ok next =>
      have hrest := ih (i + 1) next
      simp only [scanFrom, List.cons_append, List.length_cons, hstep, ← hindex]
      exact hrest

theorem step_ordinary (i : ℕ) (c : Char) (scan : Scan) (hc : Ordinary scan.state c) :
    step i c scan = .ok { scan with builder := scan.builder ++ [c] } := by
  obtain ⟨state, builder, media, key, params⟩ := scan
  cases state with
  | media =>
    obtain ⟨hquestion, hcolon, hbar, hequals⟩ := hc
    simp [step, hquestion, hcolon, hbar, hequals]
  | paramsKey =>
    obtain ⟨hequals, hbar⟩ := hc
    simp [step, hequals, hbar]
  | paramsValue => simpa [step] using fun h => absurd h hc

theorem scanFrom_ordinary (i : ℕ) (text : List Char) (scan : Scan)
    (htext : ∀ c ∈ text, Ordinary scan.state c) :
    scanFrom i text scan = .ok { scan with builder := scan.builder ++ text } := by
  induction text generalizing i scan with
  | nil => simp [scanFrom]
  | cons c rest ih =>
    obtain ⟨hc, hrest⟩ := List.forall_mem_cons.mp htext
    have hnext := ih (i + 1) { scan with builder := scan.builder ++ [c] } hrest
    simp only [scanFrom, step_ordinary i c scan hc, List.append_assoc,
      List.singleton_append] at hnext ⊢
    exact hnext

/-- Placing a parameter keeps the map that of the parameters written so far. -/
theorem emplace_toFinmap (done : List Param) (key value : List Char) :
    emplace done.toFinmap key value = (done ++ [(⟨key, value⟩ : Param)]).toFinmap := by
  refine Finmap.ext_lookup fun x => ?_
  rw [Finmap.dlookup_list_toFinmap, List.dlookup_append]
  unfold emplace
  by_cases hx : x = key
  · subst x
    split
    · rename_i hmem
      obtain ⟨old, hold⟩ := Finmap.mem_iff.mp hmem
      rw [hold, ← Finmap.dlookup_list_toFinmap, hold, Option.some_or]
    · rename_i hmem
      have hnone := Finmap.lookup_eq_none.mpr hmem
      rw [Finmap.lookup_insert, ← Finmap.dlookup_list_toFinmap, hnone, Option.none_or,
        List.dlookup_cons_eq]
  · have hlast : List.dlookup x [(⟨key, value⟩ : Param)] = none := by
      rw [List.dlookup_cons_ne _ _ hx, List.dlookup_nil]
    rw [hlast, Option.or_none]
    split
    · rw [Finmap.dlookup_list_toFinmap]
    · rw [Finmap.lookup_insert_of_ne _ hx, Finmap.dlookup_list_toFinmap]

/-- A key and an equals sign. -/
theorem scanFrom_key (i : ℕ) (p : Param) (media key : List Char) (params : Params)
    (hp : Formed p) : scanFrom i (p.1 ++ ['=']) ⟨.paramsKey, [], media, key, params⟩ =
      .ok ⟨.paramsValue, [], media, p.1, params⟩ := by
  have hkey := scanFrom_ordinary i p.1 ⟨.paramsKey, [], media, key, params⟩ hp.key
  rw [scanFrom_append, hkey]
  simp [scanFrom, step, hp.named, bind, Except.bind]

theorem scanFrom_param (i : ℕ) (p : Param) (media key : List Char) (params : Params)
    (hp : Formed p) :
    scanFrom i (p.1 ++ ['='] ++ p.2) ⟨.paramsKey, [], media, key, params⟩ =
      .ok ⟨.paramsValue, p.2, media, p.1, params⟩ := by
  rw [scanFrom_append, scanFrom_key i p media key params hp]
  exact scanFrom_ordinary _ p.2 ⟨.paramsValue, [], media, p.1, params⟩ hp.value

theorem scanFrom_closed (i : ℕ) (p : Param) (media key : List Char) (done : List Param)
    (hp : Formed p) :
    scanFrom i (closed p) ⟨.paramsKey, [], media, key, done.toFinmap⟩ =
      .ok ⟨.paramsKey, [], media, p.1, (done ++ [p]).toFinmap⟩ := by
  have hclosed : closed p = p.1 ++ ['='] ++ p.2 ++ ['|'] := by simp [closed]
  rw [hclosed, scanFrom_append, scanFrom_param i p media key _ hp]
  simp [scanFrom, step, bind, Except.bind, emplace_toFinmap]

/-- The parameters before the last one, each with its bar. -/
theorem scanFrom_params (i : ℕ) (done rest : List Param) (media key : List Char)
    (hrest : ∀ p ∈ rest, Formed p) :
    ∃ last, scanFrom i (rest.flatMap closed) ⟨.paramsKey, [], media, key, done.toFinmap⟩ =
      .ok ⟨.paramsKey, [], media, last, (done ++ rest).toFinmap⟩ := by
  induction rest generalizing i done key with
  | nil => exact ⟨key, by simp [scanFrom]⟩
  | cons p rest ih =>
    obtain ⟨hp, hrest⟩ := List.forall_mem_cons.mp hrest
    obtain ⟨last, hlast⟩ := ih (i + (closed p).length) (done ++ [p]) p.1 hrest
    refine ⟨last, ?_⟩
    rw [List.flatMap_cons, scanFrom_append, scanFrom_closed i p media key done hp]
    simpa only [bind, Except.bind, List.append_assoc, List.singleton_append] using hlast

theorem paramsText_concat (rest : List Param) (p : Param) :
    paramsText (rest ++ [p]) = ['?'] ++ (rest.flatMap closed ++ (p.1 ++ ['='] ++ p.2)) := by
  have htext : '?' :: (rest ++ [p]).flatMap closed =
      ['?'] ++ (rest.flatMap closed ++ (p.1 ++ ['='] ++ p.2)) ++ ['|'] := by
    simp [closed]
  rw [paramsText, if_neg (by simp), htext, List.dropLast_concat]

/-- The scan of a media that is followed by a question mark. -/
theorem scanFrom_media (i : ℕ) (media : List Char) (hmedia : ∀ c ∈ media, Ordinary .media c) :
    scanFrom i (media ++ ['?']) initial = .ok ⟨.paramsKey, [], media, [], ∅⟩ := by
  have hplain := scanFrom_ordinary i media initial hmedia
  rw [scanFrom_append, hplain]
  simp [scanFrom, step, initial, bind, Except.bind]

end Scanning

/-- The scan of a written channel ends in the channel that is meant. -/
theorem parse_text (w : Written) : parse w.text = .ok w.value := by
  obtain ⟨spy, media, params, hplain, hformed, hbare⟩ := w
  rw [Written.text, parse_head]
  rcases List.eq_nil_or_concat' params with rfl | ⟨rest, p, rfl⟩
  · have hscan := scanFrom_ordinary (head spy).length media initial hplain
    have htext : media ++ paramsText [] = media := by simp [paramsText]
    rw [htext, hscan]
    rcases hbare rfl with rfl | rfl
    · rfl
    · rfl
  · have hrest : ∀ q ∈ rest, Formed q := fun q hq => hformed q (List.mem_append_left _ hq)
    have hp : Formed p := hformed p (List.mem_append_right _ (List.mem_singleton_self p))
    obtain ⟨last, hlast⟩ := scanFrom_params ((head spy).length + (media ++ ['?']).length) [] rest
      media [] hrest
    have hempty : (∅ : Params) = ([] : List Param).toFinmap := rfl
    rw [paramsText_concat, ← List.append_assoc, scanFrom_append, scanFrom_media _ _ hplain, hempty]
    simp only [bind, Except.bind, scanFrom_append, hlast, scanFrom_param _ p _ _ _ hp]
    simp only [finish, emplace_toFinmap, List.nil_append, Written.value]

/-- What a scan holds of the text it has gone through. -/
inductive Consumed : Scan → List Char → Prop
  | media {builder media key : List Char} :
      (∀ c ∈ builder, Ordinary .media c) → Consumed ⟨.media, builder, media, key, ∅⟩ builder
  | paramsKey {builder media key : List Char} {done : List Param} :
      (∀ c ∈ media, Ordinary .media c) → (∀ p ∈ done, Formed p) →
      (∀ c ∈ builder, Ordinary .paramsKey c) →
      Consumed ⟨.paramsKey, builder, media, key, done.toFinmap⟩
        (media ++ ['?'] ++ done.flatMap closed ++ builder)
  | paramsValue {builder media key : List Char} {done : List Param} :
      (∀ c ∈ media, Ordinary .media c) → (∀ p ∈ done, Formed p) → Formed ⟨key, builder⟩ →
      Consumed ⟨.paramsValue, builder, media, key, done.toFinmap⟩
        (media ++ ['?'] ++ done.flatMap closed ++ (key ++ ['='] ++ builder))

section Accepted

theorem consumed_initial : Consumed initial [] := .media (by simp)

theorem forall_mem_concat {α : Type} {P : α → Prop} {items : List α} {last : α}
    (hitems : ∀ a ∈ items, P a) (hlast : P last) : ∀ a ∈ items ++ [last], P a := by
  intro a ha
  rcases List.mem_append.mp ha with hmem | hmem
  · exact hitems a hmem
  · rw [List.mem_singleton.mp hmem]
    exact hlast

theorem consumed_step {scan next : Scan} {text : List Char} (i : ℕ) (c : Char)
    (h : Consumed scan text) (hstep : step i c scan = .ok next) :
    Consumed next (text ++ [c]) := by
  cases h with
  | @media _ media key hplain =>
    simp only [step] at hstep
    split at hstep
    · rename_i hc
      obtain rfl := hc
      obtain rfl := Except.ok.inj hstep
      have hnext : Consumed ⟨.paramsKey, [], text, key, ([] : List Param).toFinmap⟩
          (text ++ ['?'] ++ ([] : List Param).flatMap closed ++ []) :=
        .paramsKey hplain (by simp) (by simp)
      simpa using hnext
    · split at hstep
      · exact absurd hstep (by simp)
      · rename_i hquestion hother
        obtain rfl := Except.ok.inj hstep
        simp only [not_or] at hother
        exact .media (forall_mem_concat hplain ⟨hquestion, hother⟩)
  | @paramsKey builder media key done hplain hdone hkey =>
    simp only [step] at hstep
    split at hstep
    · split at hstep
      · exact absurd hstep (by simp)
      · rename_i hc hnamed
        obtain rfl := hc
        obtain rfl := Except.ok.inj hstep
        have hformed : Formed ⟨builder, []⟩ :=
          ⟨fun hnil => hnamed (List.length_eq_zero_iff.mpr hnil), hkey, by simp⟩
        simpa using Consumed.paramsValue hplain hdone hformed
    · split at hstep
      · exact absurd hstep (by simp)
      · rename_i hequals hbar
        obtain rfl := Except.ok.inj hstep
        rw [List.append_assoc]
        exact .paramsKey hplain hdone (forall_mem_concat hkey ⟨hequals, hbar⟩)
  | @paramsValue builder media key done hplain hdone hlast =>
    simp only [step] at hstep
    split at hstep
    · rename_i hc
      obtain rfl := hc
      obtain rfl := Except.ok.inj hstep
      have hnext : Consumed
          ⟨.paramsKey, [], media, key, (done ++ [(⟨key, builder⟩ : Param)]).toFinmap⟩
          (media ++ ['?'] ++ (done ++ [(⟨key, builder⟩ : Param)]).flatMap closed ++ []) :=
        .paramsKey hplain (forall_mem_concat hdone hlast) (by simp)
      rw [emplace_toFinmap]
      simpa [closed] using hnext
    · rename_i hbar
      obtain rfl := Except.ok.inj hstep
      have hformed : Formed ⟨key, builder ++ [c]⟩ :=
        ⟨hlast.named, hlast.key, forall_mem_concat hlast.value hbar⟩
      have hnext := Consumed.paramsValue hplain hdone hformed
      simpa only [List.append_assoc] using hnext

theorem consumed_scanFrom {scan last : Scan} {text : List Char} (i : ℕ) (rest : List Char)
    (h : Consumed scan text) (hscan : scanFrom i rest scan = .ok last) :
    Consumed last (text ++ rest) := by
  induction rest generalizing i scan text with
  | nil =>
    obtain rfl := Except.ok.inj hscan
    simpa using h
  | cons c rest ih =>
    cases hstep : step i c scan with
    | error e =>
      simp only [scanFrom, hstep] at hscan
      exact absurd hscan (by simp [bind, Except.bind])
    | ok next =>
      simp only [scanFrom, hstep] at hscan
      have hlast := ih (i + 1) (consumed_step i c h hstep) hscan
      simpa using hlast

/-- A scan that can be finished has gone through a written channel. -/
theorem exists_written {scan : Scan} {text : List Char} (spy : Bool) (uri : ChannelUri)
    (h : Consumed scan text) (hfinish : finish (qualifier spy) scan = .ok uri) :
    ∃ w : Written, w.text = head spy ++ text ∧ w.value = uri := by
  cases h with
  | media hplain =>
    simp only [finish] at hfinish
    split at hfinish
    · exact absurd hfinish (by simp)
    · rename_i hknown
      obtain rfl := Except.ok.inj hfinish
      have hbare : text = ipcMedia ∨ text = udpMedia := by
        by_contra hneither
        exact hknown (not_or.mp hneither)
      refine ⟨⟨spy, text, [], hplain, by simp, fun _ => hbare⟩, ?_, rfl⟩
      simp [Written.text, paramsText]
  | paramsKey hplain hdone hkey => exact absurd hfinish (by simp [finish])
  | @paramsValue builder media key done hplain hdone hlast =>
    obtain rfl := Except.ok.inj hfinish
    refine ⟨⟨spy, media, done ++ [⟨key, builder⟩], hplain, forall_mem_concat hdone hlast,
      by simp⟩, ?_, ?_⟩
    · simp only [Written.text, paramsText_concat, List.append_assoc]
    · simp only [Written.value, emplace_toFinmap]

theorem written_of_parse {text : List Char} {uri : ChannelUri} (hparse : parse text = .ok uri) :
    ∃ w : Written, w.text = text ∧ w.value = uri := by
  rcases parse_cases text with ⟨spy, body, rfl⟩ | herror
  · rw [parse_head] at hparse
    cases hscan : scanFrom (head spy).length body initial with
    | error e => exact absurd hparse (by simp [hscan, bind, Except.bind])
    | ok last =>
      simp only [hscan, bind, Except.bind] at hparse
      have hlast := consumed_scanFrom (head spy).length body consumed_initial hscan
      exact exists_written spy uri hlast hparse
  · exact absurd hparse (by simp [herror])

end Accepted

/-- The parser accepts the written channels and no others, and reads each as it is meant. -/
theorem parse_iff_written (text : List Char) (uri : ChannelUri) :
    parse text = .ok uri ↔ ∃ w : Written, w.text = text ∧ w.value = uri := by
  constructor
  · exact written_of_parse
  · rintro ⟨w, rfl, rfl⟩
    exact parse_text w

/-- A text that some channel begins with. -/
def Viable (text : List Char) : Prop := ∃ rest uri, parse (text ++ rest) = .ok uri

section Refused

/-- From wherever the scan stands, some text ends it well. -/
theorem exists_completion (i : ℕ) (scan : Scan) :
    ∃ rest last, scanFrom i rest scan = .ok last ∧ last.state = .paramsValue := by
  have hkey : ∀ j (next : Scan), next.state = .paramsKey →
      ∃ last, scanFrom j ['k', '='] next = .ok last ∧ last.state = .paramsValue := by
    rintro j ⟨state, builder, media, key, params⟩ rfl
    exact ⟨⟨.paramsValue, [], media, builder ++ ['k'], params⟩, by simp [scanFrom, step, bind,
      Except.bind], rfl⟩
  cases hstate : scan.state with
  | media =>
    obtain ⟨last, hscan, hlast⟩ := hkey (i + 1)
      { scan with media := scan.builder, builder := [], state := .paramsKey } rfl
    refine ⟨['?', 'k', '='], last, ?_, hlast⟩
    have hstep : step i '?' scan =
        .ok { scan with media := scan.builder, builder := [], state := .paramsKey } := by
      simp [step, hstate]
    rw [scanFrom, hstep]
    exact hscan
  | paramsKey =>
    obtain ⟨last, hscan, hlast⟩ := hkey i scan hstate
    exact ⟨_, last, hscan, hlast⟩
  | paramsValue => exact ⟨[], scan, rfl, hstate⟩

/-- The texts that channels begin with are those the scan gets through. -/
theorem viable_iff_scanned (spy : Bool) (body : List Char) :
    Viable (head spy ++ body) ↔ ∃ scan, scanFrom (head spy).length body initial = .ok scan := by
  constructor
  · rintro ⟨rest, uri, hparse⟩
    rw [List.append_assoc, parse_head, scanFrom_append] at hparse
    cases hscan : scanFrom (head spy).length body initial with
    | error e => exact absurd hparse (by simp [hscan, bind, Except.bind])
    | ok scan => exact ⟨scan, rfl⟩
  · rintro ⟨scan, hscan⟩
    obtain ⟨rest, last, hrest, hlast⟩ :=
      exists_completion ((head spy).length + body.length) scan
    refine ⟨rest, ⟨qualifier spy, last.media, emplace last.params last.key last.builder⟩, ?_⟩
    rw [List.append_assoc, parse_head, scanFrom_append, hscan]
    simp only [bind, Except.bind, hrest, finish, hlast]

theorem index_of_step {i : ℕ} {c : Char} {scan : Scan} {e : UriError}
    (h : step i c scan = .error e) : e.index = some i := by
  unfold step at h
  split at h
  · split at h
    · exact absurd h (by simp)
    · split at h
      · obtain rfl := Except.error.inj h
        rfl
      · exact absurd h (by simp)
  · split at h
    · split at h
      · obtain rfl := Except.error.inj h
        rfl
      · exact absurd h (by simp)
    · split at h
      · obtain rfl := Except.error.inj h
        rfl
      · exact absurd h (by simp)
  · split at h
    · exact absurd h (by simp)
    · exact absurd h (by simp)

/-- A scan that fails gets through all before the index it names, and not through that. -/
theorem scanFrom_error {i : ℕ} {text : List Char} {scan : Scan} {e : UriError}
    (h : scanFrom i text scan = .error e) : ∃ n, n < text.length ∧ e.index = some (i + n) ∧
      (∃ mid, scanFrom i (text.take n) scan = .ok mid) ∧
      scanFrom i (text.take (n + 1)) scan = .error e := by
  induction text generalizing i scan with
  | nil => exact absurd h (by simp [scanFrom])
  | cons c rest ih =>
    cases hstep : step i c scan with
    | error e' =>
      simp only [scanFrom, hstep, bind, Except.bind] at h
      obtain rfl := Except.error.inj h
      refine ⟨0, by simp, index_of_step hstep, ⟨scan, rfl⟩, ?_⟩
      simp only [List.take_succ_cons, scanFrom, hstep, bind, Except.bind]
    | ok next =>
      simp only [scanFrom, hstep, bind, Except.bind] at h
      obtain ⟨n, hn, hindex, ⟨mid, hmid⟩, hfail⟩ := ih h
      refine ⟨n + 1, by simpa using hn, ?_, ⟨mid, ?_⟩, ?_⟩
      · rw [hindex]
        congr 1
        omega
      · simpa only [List.take_succ_cons, scanFrom, hstep, bind, Except.bind] using hmid
      · simpa only [List.take_succ_cons, scanFrom, hstep, bind, Except.bind] using hfail

theorem index_of_finish {uriPrefix : List Char} {scan : Scan} {e : UriError}
    (h : finish uriPrefix scan = .error e) : e.index = none ∧ e ≠ .notAeron := by
  unfold finish at h
  split at h
  · split at h
    · obtain rfl := Except.error.inj h
      exact ⟨rfl, by simp⟩
    · exact absurd h (by simp)
  · exact absurd h (by simp)
  · obtain rfl := Except.error.inj h
    exact ⟨rfl, by simp⟩

theorem viable_of_begins {first second : List Char} (hbegins : first <+: second)
    (h : Viable second) : Viable first := by
  obtain ⟨middle, rfl⟩ := hbegins
  obtain ⟨rest, uri, hparse⟩ := h
  exact ⟨middle ++ rest, uri, by rw [← List.append_assoc]; exact hparse⟩

theorem take_head_append (spy : Bool) (body : List Char) (n : ℕ) :
    (head spy ++ body).take ((head spy).length + n) = head spy ++ body.take n :=
  List.take_length_add_append n

/-- Where a scan fails: the text up to there goes on to some channel, and no further. -/
theorem index_of_failed_scan {spy : Bool} {body : List Char} {e : UriError}
    (h : scanFrom (head spy).length body initial = .error e) (index : ℕ) :
    e.index = some index ↔ Viable ((head spy ++ body).take index) ∧
      ¬ Viable ((head spy ++ body).take (index + 1)) := by
  obtain ⟨n, -, hindex, hbefore, hat⟩ := scanFrom_error h
  have hviable : Viable ((head spy ++ body).take ((head spy).length + n)) := by
    rw [take_head_append, viable_iff_scanned]
    exact hbefore
  have hmisfit : ¬ Viable ((head spy ++ body).take ((head spy).length + n + 1)) := by
    rw [Nat.add_assoc, take_head_append, viable_iff_scanned, hat]
    rintro ⟨scan, hscan⟩
    exact absurd hscan (by simp)
  rw [hindex, Option.some.injEq]
  constructor
  · rintro rfl
    exact ⟨hviable, hmisfit⟩
  · rintro ⟨hbelow, habove⟩
    rcases Nat.lt_trichotomy ((head spy).length + n) index with hlt | heq | hgt
    · exact absurd (viable_of_begins (List.take_prefix_take_left (by omega)) hbelow) hmisfit
    · exact heq
    · exact absurd (viable_of_begins (List.take_prefix_take_left (by omega)) hviable) habove

/-- A text with the right beginning is refused by the scan, or is the beginning of a channel. -/
theorem refused_head {spy : Bool} {body : List Char} {e : UriError}
    (h : parse (head spy ++ body) = .error e) :
    scanFrom (head spy).length body initial = .error e ∨
      Viable (head spy ++ body) ∧ e.index = none ∧ e ≠ .notAeron := by
  rw [parse_head] at h
  cases hscan : scanFrom (head spy).length body initial with
  | error e' =>
    simp only [hscan, bind, Except.bind] at h
    exact Or.inl (congrArg Except.error (Except.error.inj h))
  | ok scan =>
    simp only [hscan, bind, Except.bind] at h
    exact Or.inr ⟨(viable_iff_scanned spy body).mpr ⟨scan, hscan⟩, index_of_finish h⟩

theorem ne_notAeron_of_head {spy : Bool} {body : List Char} {e : UriError}
    (h : parse (head spy ++ body) = .error e) : e ≠ .notAeron := by
  rcases refused_head h with hscan | ⟨-, -, hne⟩
  · obtain ⟨n, -, hindex, -, -⟩ := scanFrom_error hscan
    rintro rfl
    exact absurd hindex (by simp [UriError.index])
  · exact hne

theorem notAeron_iff {text : List Char} {e : UriError} (h : parse text = .error e) :
    e = .notAeron ↔ ∀ spy, ¬ head spy <+: text := by
  constructor
  · rintro rfl spy ⟨body, rfl⟩
    exact ne_notAeron_of_head h rfl
  · intro hnone
    rcases parse_cases text with ⟨spy, body, rfl⟩ | hparse
    · exact absurd (List.prefix_append _ _) (hnone spy)
    · exact Except.error.inj (h.symm.trans hparse)

end Refused

/-- A text is refused for its beginning, or at the first character that no channel has in its
place, or where there is none such, for ending too early or naming no media. -/
theorem refused_at_first_misfit (text : List Char) (e : UriError) (h : parse text = .error e) :
    (e = .notAeron ↔ ∀ spy, ¬ head spy <+: text) ∧
      (e ≠ .notAeron → (e.index = none ↔ Viable text) ∧
        ∀ index, e.index = some index ↔
          Viable (text.take index) ∧ ¬ Viable (text.take (index + 1))) := by
  refine ⟨notAeron_iff h, fun haeron => ?_⟩
  rcases parse_cases text with ⟨spy, body, rfl⟩ | hparse
  · rcases refused_head h with hscan | ⟨hviable, hindex, -⟩
    · refine ⟨?_, index_of_failed_scan hscan⟩
      obtain ⟨n, -, hindex, -, -⟩ := scanFrom_error hscan
      have hnot : ¬ Viable (head spy ++ body) := by
        rw [viable_iff_scanned, hscan]
        rintro ⟨scan, hok⟩
        exact absurd hok (by simp)
      simp [hindex, hnot]
    · refine ⟨by simp [hindex, hviable], fun index => ?_⟩
      have hbefore := viable_of_begins (List.take_prefix (index + 1) _) hviable
      simp [hindex, hbefore]
  · exact absurd (Except.error.inj (h.symm.trans hparse)) haeron

/-- A key that is missing is noticed at the equals sign. -/
theorem emptyKey_misfit :
    parse "aeron:udp?=x".toList = .error (.emptyKey 10) ∧
      Viable "aeron:udp?".toList ∧ ¬ Viable "aeron:udp?=".toList := by
  have h : parse "aeron:udp?=x".toList = .error (.emptyKey 10) := by decide
  exact ⟨h, (((refused_at_first_misfit _ _ h).2 (by decide)).2 10).mp rfl⟩

end AeronFast.UriGrammar
