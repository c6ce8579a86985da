import AeronFast.UriGrammar

/-!
Channels that are written out and read again. Whatever the order in which the
parameters are walked, a channel that was read is read back as it was, and so
is one that had a parameter put into it, as long as the parameter can be told
apart from its neighbours.
-/
namespace AeronFast.ChannelRoundTrip

open ChannelUri UriGrammar

section WalkedOrders

theorem toFinmap_of_walks {params : Params} {order : List Param} (h : Walks params order) :
    order.toFinmap = params := by
  refine Finmap.ext_lookup fun x => ?_
  have hnodup : order.NodupKeys := by
    rw [← Multiset.coe_nodupKeys, h]
    exact params.nodupKeys
  revert h
  refine params.induction_on fun entries h => ?_
  have hperm : order.Perm entries.entries := Multiset.coe_eq_coe.mp h
  rw [Finmap.dlookup_list_toFinmap, Finmap.lookup_toFinmap]
  exact List.perm_dlookup x hnodup hperm

theorem lookup_of_mem_walks {params : Params} {order : List Param} (h : Walks params order)
    (p : Param) (hp : p ∈ order) : params.lookup p.1 = some p.2 := by
  have hnodup : order.NodupKeys := by
    rw [← Multiset.coe_nodupKeys, h]
    exact params.nodupKeys
  rw [← toFinmap_of_walks h, Finmap.dlookup_list_toFinmap]
  exact List.mem_dlookup hnodup hp

end WalkedOrders

section Reading

/-- The parameters of a channel that was read can be told apart. -/
theorem formed_of_parse {text : List Char} {uri : ChannelUri} (h : parse text = .ok uri)
    {key value : List Char} (hvalue : uri.params.lookup key = some value) :
    Formed ⟨key, value⟩ := by
  obtain ⟨w, rfl, rfl⟩ := written_of_parse h
  rw [Written.value, Finmap.dlookup_list_toFinmap] at hvalue
  exact w.formed _ (List.of_mem_dlookup hvalue)

theorem prefixText_qualifier (spy : Bool) :
    prefixText (qualifier spy) ++ aeronPrefix = head spy := by
  cases spy with
  | false => rfl
  | true => rfl

/-- A channel whose parts can be told apart is read back, whatever the order of its
parameters. -/
theorem parse_toText (spy : Bool) {media : List Char} {params : Params} {order : List Param}
    (hplain : ∀ c ∈ media, Ordinary .media c)
    (hformed : ∀ key value, params.lookup key = some value → Formed ⟨key, value⟩)
    (hbare : params = ∅ → media = ipcMedia ∨ media = udpMedia) (horder : Walks params order) :
    parse (toText ⟨qualifier spy, media, params⟩ order) = .ok ⟨qualifier spy, media, params⟩ := by
  have hmap := toFinmap_of_walks horder
  have hall : ∀ p ∈ order, Formed p := fun p hp =>
    hformed p.1 p.2 (lookup_of_mem_walks horder p hp)
  have hnil : order = [] → media = ipcMedia ∨ media = udpMedia := by
    rintro rfl
    exact hbare hmap.symm
  have hread := parse_text ⟨spy, media, order, hplain, hall, hnil⟩
  rwa [Written.text, ← prefixText_qualifier, ← List.append_assoc, Written.value, hmap] at hread

theorem lookup_put (uri : ChannelUri) (key value x : List Char) :
    (uri.put key value).params.lookup x = if x = key then some value else uri.params.lookup x := by
  split
  · rename_i hx
    subst x
    exact Finmap.lookup_insert _
  · rename_i hx
    exact Finmap.lookup_insert_of_ne _ hx

/-- Both the prefix and the media of a channel that was read are those of a written one. -/
theorem parts_of_parse {text : List Char} {uri : ChannelUri} (h : parse text = .ok uri) :
    ∃ spy, uri.uriPrefix = qualifier spy ∧ ∀ c ∈ uri.media, Ordinary .media c := by
  obtain ⟨w, rfl, rfl⟩ := written_of_parse h
  exact ⟨w.spy, rfl, w.plain⟩

/-- A channel that was read has a parameter or one of the two known media. -/
theorem bare_of_parse {text : List Char} {uri : ChannelUri} (h : parse text = .ok uri)
    (hempty : uri.params = ∅) : uri.media = ipcMedia ∨ uri.media = udpMedia := by
  obtain ⟨w, rfl, rfl⟩ := written_of_parse h
  refine w.bare (List.eq_nil_iff_forall_not_mem.mpr fun p hp => ?_)
  have hmem : p.1 ∈ w.params.toFinmap := (Finmap.mem_list_toFinmap _ _).mpr ⟨p.2, hp⟩
  have hparams : w.params.toFinmap = ∅ := hempty
  rw [hparams] at hmem
  exact Finmap.notMem_empty hmem

theorem parse_put_toText {text key value : List Char} {uri : ChannelUri} {order : List Param}
    (h : parse text = .ok uri) (hp : Formed ⟨key, value⟩)
    (horder : Walks (uri.put key value).params order) :
    parse ((uri.put key value).toText order) = .ok (uri.put key value) := by
  obtain ⟨spy, hqualifier, hplain⟩ := parts_of_parse h
  have hformed : ∀ k v, (uri.put key value).params.lookup k = some v → Formed ⟨k, v⟩ := by
    intro k v hvalue
    rw [lookup_put] at hvalue
    split at hvalue
    · rename_i hk
      obtain rfl := hk
      obtain rfl := Option.some.inj hvalue
      exact hp
    · exact formed_of_parse h hvalue
  have hsome : (uri.put key value).params ≠ ∅ := by
    intro hempty
    have hvalue := lookup_put uri key value key
    rw [hempty, if_pos rfl] at hvalue
    exact absurd hvalue (by simp)
  have hread := parse_toText spy hplain hformed (fun hempty => absurd hempty hsome) horder
  rwa [← hqualifier] at hread

end Reading

/-- In whatever order its parameters are written, a channel that was read is read back as it
is, and with a parameter put into it if and only if that can be told apart. -/
theorem reads_back (text key value : List Char) (uri : ChannelUri) (order putOrder : List Param)
    (h : parse text = .ok uri) (horder : Walks uri.params order)
    (hput : Walks (uri.put key value).params putOrder) :
    parse (uri.toText order) = .ok uri ∧
      (parse ((uri.put key value).toText putOrder) = .ok (uri.put key value) ↔
        Formed ⟨key, value⟩) := by
  refine ⟨?_, ?_, fun hp => parse_put_toText h hp hput⟩
  · obtain ⟨spy, hqualifier, hplain⟩ := parts_of_parse h
    have hread := parse_toText spy hplain (fun k v => formed_of_parse h) (bare_of_parse h) horder
    rwa [← hqualifier] at hread
  · intro hread
    refine formed_of_parse hread ?_
    rw [lookup_put, if_pos rfl]

/-- A value with a bar in it is not read back, one without is. -/
theorem mtu_reads_back :
    parse (toText (put ⟨[], udpMedia, ∅⟩ ['m'] ['8']) [⟨['m'], ['8']⟩]) =
        .ok (put ⟨[], udpMedia, ∅⟩ ['m'] ['8']) ∧
      parse (toText (put ⟨[], udpMedia, ∅⟩ ['m'] ['8', '|']) [⟨['m'], ['8', '|']⟩]) ≠
        .ok (put ⟨[], udpMedia, ∅⟩ ['m'] ['8', '|']) := by
  have hparse : parse "aeron:udp".toList = .ok ⟨[], udpMedia, ∅⟩ := rfl
  have hformed : Formed ⟨['m'], ['8']⟩ := ⟨by simp, by simp [Ordinary], by simp [Ordinary]⟩
  have hbar : ¬ Formed ⟨['m'], ['8', '|']⟩ := fun h => h.value '|' (by simp) rfl
  have hkept := reads_back _ ['m'] ['8'] _ [] [⟨['m'], ['8']⟩] hparse rfl rfl
  have hlost := reads_back _ ['m'] ['8', '|'] _ [] [⟨['m'], ['8', '|']⟩] hparse rfl rfl
  exact ⟨hkept.2.mpr hformed, mt hlost.2.mp hbar⟩

section SessionIds

theorem digit_ne_bar {n : ℕ} {c : Char} (hc : c ∈ Nat.toDigits 10 n) : c ≠ '|' := by
  have hdigit := Nat.isDigit_of_mem_toDigits (by decide) (by decide) hc
  rintro rfl
  exact absurd hdigit (by decide)

theorem ne_bar_of_mem_decimal {sessionId : Int32} {c : Char} (hc : c ∈ decimal sessionId) :
    c ≠ '|' := by
  have hrepr : decimal sessionId = (Int.repr sessionId.toInt).toList := rfl
  rw [hrepr] at hc
  cases hvalue : sessionId.toInt with
  | ofNat n =>
    simp only [hvalue, Int.repr, Nat.repr, String.toList_ofList] at hc
    exact digit_ne_bar hc
  | negSucc n =>
    simp only [hvalue, Int.repr, Nat.repr, String.toList_append,
      String.toList_ofList, List.mem_append] at hc
    rcases hc with hsign | hdigit
    · rw [List.mem_singleton.mp hsign]
      decide
    · exact digit_ne_bar hdigit

theorem formed_sessionId (sessionId : Int32) :
    Formed ⟨sessionIdParamName, decimal sessionId⟩ := by
  have hnamed : sessionIdParamName ≠ [] := by decide
  have hall : (sessionIdParamName.all fun c => c != '=' && c != '|') = true := by decide
  refine ⟨hnamed, fun c hc => ?_, fun c hc => ne_bar_of_mem_decimal hc⟩
  have hboth := List.all_eq_true.mp hall c hc
  simpa only [Ordinary, Bool.and_eq_true, bne_iff_ne] using hboth

end SessionIds

/-- The channel with a session added to it reads as the channel it was, with that session. -/
theorem addSessionId_reads (walk : Params → List Param)
    (hwalk : ∀ params, Walks params (walk params)) (channel : List Char) (sessionId : Int32) :
    (addSessionId walk channel sessionId >>= parse) =
      (parse channel).map (fun uri => uri.put sessionIdParamName (decimal sessionId)) := by
  cases hparse : parse channel with
  | error e => simp only [addSessionId, hparse, bind, Except.bind, Except.map]
  | ok uri =>
    have hread := parse_put_toText hparse (formed_sessionId sessionId) (hwalk _)
    simp only [addSessionId, hparse, bind, Except.bind, Except.map, pure, Except.pure, hread]

theorem endpoint_sessionId :
    (addSessionId (fun params => params.entries.toList) "aeron:udp?endpoint=h:1".toList 7 >>=
      parse) = .ok ⟨[], udpMedia,
        [⟨sessionIdParamName, ['7']⟩, ⟨endpointParamName, "h:1".toList⟩].toFinmap⟩ := by
  rw [addSessionId_reads _ (fun params => Multiset.coe_toList _)]
  rfl

end AeronFast.ChannelRoundTrip
