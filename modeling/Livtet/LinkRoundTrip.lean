import Livtet.LinkEscapes

/-! # Pairing links round trip

    What `encode` writes holds no separator and no white space, and each of its percent
    signs is followed by two digits. So the parameters of a link that was written come
    apart where they were put together, and their values are read as they were. -/

namespace SyncPairLink

open SyncPairing (isWhitespace trim isWhitespace_of_isAlphanum trim_eq_self)
open Utf8Text PercentText

/-! ## What is written -/

/-- A character that escaped text is made of. -/
def isPlain (c : Char) : Bool := c.isAlphanum || ['-', '_', '.', '~', '%'].contains c

theorem isWhitespace_of_isPlain {c : Char} (h : isPlain c = true) : isWhitespace c = false := by
  rw [isPlain, Bool.or_eq_true, List.contains_iff_mem] at h
  rcases h with h | h
  · exact isWhitespace_of_isAlphanum h
  · simp only [List.mem_cons, List.not_mem_nil, or_false] at h
    rcases h with rfl | rfl | rfl | rfl | rfl <;> rfl

theorem hexDigit_plain : ∀ n < 16, isPlain (hexDigit n) = true ∧ (hexDigit n).utf8Size = 1 ∧
    hexDigit n ≠ '+' ∧ hexDigit n ≠ '%' := by
  decide

theorem isUnreserved_lt {b : UInt8} (h : isUnreserved b = true) : b < 0x80 := by
  simp only [isUnreserved, Bool.or_eq_true, Bool.and_eq_true, decide_eq_true_eq, beq_iff_eq] at h
  rcases h with (((((⟨_, h⟩ | ⟨_, h⟩) | ⟨_, h⟩) | rfl) | rfl) | rfl) | rfl
  · exact UInt8.lt_of_le_of_lt h (by decide)
  · exact UInt8.lt_of_le_of_lt h (by decide)
  · exact UInt8.lt_of_le_of_lt h (by decide)
  all_goals decide

/-- What is kept is plain, and no percent sign. -/
theorem unreserved_plain {b : UInt8} (h : isUnreserved b = true) :
    isPlain (Char.ofNat b.toNat) = true ∧ Char.ofNat b.toNat ≠ '%' ∧ b ≠ percent := by
  have hall : ∀ n < 128, isUnreserved (UInt8.ofNat n) = true →
      isPlain (Char.ofNat n) = true ∧ Char.ofNat n ≠ '%' ∧ UInt8.ofNat n ≠ percent := by
    decide
  have hb := hall b.toNat (UInt8.lt_iff_toNat_lt.1 (isUnreserved_lt h))
  rw [UInt8.ofNat_toNat] at hb
  exact hb h

theorem isPlain_encode (value : String) : ∀ c ∈ (encode value).toList, isPlain c = true := by
  intro c hc
  rw [encode, String.toList_ofList, escape] at hc
  obtain ⟨b, _, hb⟩ := List.mem_flatMap.1 hc
  have hlt : b.toNat < 256 := b.toNat_lt
  split_ifs at hb with hkeep
  · cases List.mem_singleton.1 hb
    exact (unreserved_plain hkeep).1
  · rw [escapeByte, List.mem_cons, List.mem_cons, List.mem_singleton] at hb
    rcases hb with rfl | rfl | rfl
    · rfl
    · exact (hexDigit_plain _ (by omega)).1
    · exact (hexDigit_plain _ (by omega)).1

theorem not_mem_encode {c : Char} (h : isPlain c = false) (value : String) :
    c ∉ (encode value).toList := fun hmem => by
  cases h.symm.trans (isPlain_encode value c hmem)

theorem clean_escape (bs : List UInt8) : clean (escape isUnreserved bs) = true := by
  induction bs with
  | nil => rfl
  | cons b bs ih =>
      have hlt : b.toNat < 256 := b.toNat_lt
      rw [escape, List.flatMap_cons]
      split_ifs with hkeep
      · rw [List.singleton_append, clean_cons_ne (unreserved_plain hkeep).2.1]
        exact ih
      · obtain ⟨_, hhi, hplus, hhi'⟩ := hexDigit_plain (b.toNat / 16) (by omega)
        obtain ⟨_, hlo, _, hlo'⟩ := hexDigit_plain (b.toNat % 16) (by omega)
        show clean ('%' :: hexDigit (b.toNat / 16) :: hexDigit (b.toNat % 16) ::
          escape isUnreserved bs) = true
        refine clean_percent.2 ⟨⟨?_, ?_⟩, ?_⟩
        · rw [cuts, hhi, hlo]
          rfl
        · rw [signed, beq_eq_false_iff_ne.2 hplus, Bool.false_and]
        · rw [clean_cons_ne hhi', clean_cons_ne hlo', ih]

theorem decode_encode (value : String) : decode (encode value) = some value := by
  have hclean : clean (encode value).toList = true := by
    rw [encode, String.toList_ofList]
    exact clean_escape _
  have hkeep : ∀ b, isUnreserved b = true → b < 0x80 ∧ b ≠ percent := fun b hb =>
    ⟨isUnreserved_lt hb, (unreserved_plain hb).2.2⟩
  rw [(decode_eq_unescaped_iff _).2 hclean, unescaped, encode, String.toList_ofList,
    unescape_bytes_escape hkeep, fromUtf8Lossy_bytes, String.ofList_toList]

def param (key value : String) : List Char := key.toList ++ '=' :: (encode value).toList

/-- The name parameter and what separates it from those before. -/
def nameText : Option String → List Char
  | some name => '&' :: param keyName name
  | none => []

/-- The parameters of a link of this version. -/
def query (nodeId : String) (name : Option String) : List Char :=
  param keyVersion (toString protocolVersion) ++ '&' :: (param keyNodeId nodeId ++ nameText name)

-- Over variables: the rewriting would look into the literals.
theorem toList_pieces (a b c d e f g h i j k l : String) :
    (a ++ b ++ c ++ d ++ e ++ f ++ g ++ h ++ i ++ j ++ k ++ l).toList =
      a.toList ++ (b.toList ++ (c.toList ++ (d.toList ++ (e.toList ++ (f.toList ++ (g.toList ++
        (h.toList ++ (i.toList ++ (j.toList ++ (k.toList ++ l.toList)))))))))) := by
  simp only [String.toList_append, List.append_assoc]

theorem toList_chars : "?".toList = ['?'] ∧ "=".toList = ['='] ∧ "&".toList = ['&'] ∧
    "/".toList = ['/'] :=
  ⟨rfl, rfl, rfl, rfl⟩

theorem query_pieces (nodeId : String) (name : Option String) :
    '?' :: query nodeId name =
      "?".toList ++ (keyVersion.toList ++ ("=".toList ++ ((toString protocolVersion).toList ++
        ("&".toList ++ (keyNodeId.toList ++ ("=".toList ++
          ((encode nodeId).toList ++ nameText name))))))) := by
  have hversion : encode (toString protocolVersion) = toString protocolVersion := rfl
  obtain ⟨hquestion, hequals, hand, _⟩ := toList_chars
  rw [query, param, param, hversion, hquestion, hequals, hand]
  simp only [List.append_assoc, List.cons_append, List.nil_append]

theorem toList_toUri (nodeId : String) (name : Option String) :
    (PairLink.mk protocolVersion nodeId name).toUri.toList =
      scheme.toList ++ ("://".toList ++ (host.toList ++ '?' :: query nodeId name)) := by
  rw [query_pieces]
  cases name with
  | none => exact toList_pieces ..
  | some name =>
      have hname : nameText (some name) = ("&" ++ keyName ++ "=" ++ encode name).toList := by
        obtain ⟨_, hequals, hand, _⟩ := toList_chars
        rw [String.toList_append, String.toList_append, String.toList_append, hequals, hand,
          nameText, param, List.append_assoc]
        rfl
      rw [hname]
      exact toList_pieces ..

theorem toList_toWebUri (nodeId : String) (name : Option String) :
    (PairLink.mk protocolVersion nodeId name).toWebUri.toList =
      "https".toList ++ ("://".toList ++ ((webHost.toList ++ '/' :: host.toList) ++
        '?' :: query nodeId none)) := by
  rw [query_pieces, nameText, List.append_nil]
  exact (toList_pieces ..).trans rfl

/-- The first occurrence is the one whose first character did not occur before. -/
theorem splitOnce_append {c : Char} {sep before after : List Char} (h : c ∉ before) :
    splitOnce (c :: sep) (before ++ (c :: sep ++ after)) = some (before, after) := by
  induction before with
  | nil =>
      have hfound : (c :: sep).isPrefixOf (c :: sep ++ after) = true :=
        List.isPrefixOf_iff_prefix.2 (List.prefix_append _ _)
      show (if (c :: sep).isPrefixOf (c :: sep ++ after) then _ else _) = _
      have hdrop : (c :: sep ++ after).drop (c :: sep).length = after := List.drop_left
      rw [if_pos hfound]
      exact congrArg (fun cs => some ([], cs)) hdrop
  | cons d before ih =>
      obtain ⟨hd, hbefore⟩ := List.ne_and_not_mem_of_not_mem_cons h
      have hnot : (c :: sep).isPrefixOf (d :: before ++ (c :: sep ++ after)) = false := by
        rw [List.cons_append, List.isPrefixOf, beq_eq_false_iff_ne.2 hd, Bool.false_and]
      rw [List.cons_append] at hnot ⊢
      rw [splitOnce, hnot, ih hbefore]
      rfl

theorem queryOf_eq {found authority q : List Char} {isWeb : Bool} (hfound : ':' ∉ found)
    (hmark : '?' ∉ authority) (hweb : isWebScheme (toAsciiLowercase found) = .ok isWeb)
    (hauthority : checkAuthority isWeb authority = .ok ()) :
    queryOf (found ++ ("://".toList ++ (authority ++ '?' :: q))) = .ok q := by
  have hscheme : splitOnce "://".toList (found ++ ("://".toList ++ (authority ++ '?' :: q))) =
      some (found, authority ++ '?' :: q) := splitOnce_append hfound
  have hquery : splitOnce ['?'] (authority ++ '?' :: q) = some (authority, q) :=
    splitOnce_append hmark
  simp only [queryOf, hscheme, hquery, hweb, Option.getD_some, hauthority]
  rfl

theorem queryOf_uri (q : List Char) :
    queryOf (scheme.toList ++ ("://".toList ++ (host.toList ++ '?' :: q))) = .ok q := by
  have hweb : isWebScheme (toAsciiLowercase scheme.toList) = .ok false := rfl
  exact queryOf_eq (by decide) (by decide) hweb rfl

theorem queryOf_webUri (q : List Char) :
    queryOf ("https".toList ++ ("://".toList ++ ((webHost.toList ++ '/' :: host.toList) ++
      '?' :: q))) = .ok q := by
  have hweb : isWebScheme (toAsciiLowercase "https".toList) = .ok true := rfl
  have hauthority : checkAuthority true (webHost.toList ++ '/' :: host.toList) = .ok () := by
    decide +kernel
  exact queryOf_eq (by decide) (by decide) hweb hauthority

theorem isWhitespace_param {key : String} (hkey : (key.toList.all fun c => !isWhitespace c) = true)
    (value : String) : ∀ c ∈ param key value, isWhitespace c = false := by
  intro c hc
  rcases List.mem_append.1 hc with hc | hc
  · simpa using List.all_eq_true.1 hkey c hc
  · rcases List.mem_cons.1 hc with rfl | hc
    · rfl
    · exact isWhitespace_of_isPlain (isPlain_encode value c hc)

theorem isWhitespace_query (nodeId : String) (name : Option String) :
    ∀ c ∈ query nodeId name, isWhitespace c = false := by
  intro c hc
  rcases List.mem_append.1 hc with hc | hc
  · exact isWhitespace_param rfl _ c hc
  rcases List.mem_cons.1 hc with rfl | hc
  · rfl
  rcases List.mem_append.1 hc with hc | hc
  · exact isWhitespace_param rfl _ c hc
  cases name with
  | none => cases hc
  | some name =>
      rcases List.mem_cons.1 hc with rfl | hc
      · rfl
      · exact isWhitespace_param rfl _ c hc

theorem readPairs_param {seen seen' : Seen} {key value : String} (hkey : '=' ∉ key.toList)
    (hrecord : seen.record key.toList value = .ok seen') (rest : List (List Char)) :
    readPairs seen (param key value :: rest) = readPairs seen' rest := by
  have hsplit : splitOnce ['='] (param key value) = some (key.toList, (encode value).toList) :=
    splitOnce_append hkey
  simp only [readPairs, hsplit, Option.getD_some, String.ofList_toList, decode_encode, hrecord]

theorem param_ne_nil (key value : String) : param key value ≠ [] :=
  List.append_ne_nil_of_right_ne_nil _ (List.cons_ne_nil _ _)

theorem splitOn_query (nodeId : String) (name : Option String) :
    (query nodeId name).splitOn '&' =
      param keyVersion (toString protocolVersion) :: param keyNodeId nodeId ::
        (name.map (param keyName)).toList := by
  have hparam : ∀ key, '&' ∉ String.toList key → ∀ value, '&' ∉ param key value := by
    intro key hkey value
    exact List.not_mem_append hkey
      (List.not_mem_cons_of_ne_of_not_mem (by decide) (not_mem_encode (by decide) value))
  have hversion := hparam keyVersion (by decide) (toString protocolVersion)
  have hnodeId := hparam keyNodeId (by decide) nodeId
  rw [query, List.splitOn_append_cons_self_of_not_mem hversion]
  cases name with
  | none =>
      rw [nameText, List.append_nil, List.splitOn_eq_singleton hnodeId]
      rfl
  | some name =>
      have hname := hparam keyName (by decide) name
      rw [nameText, List.splitOn_append_cons_self_of_not_mem hnodeId,
        List.splitOn_eq_singleton hname]
      rfl

/-- The parameters are read as those of the link. -/
theorem readPairs_query (nodeId : String) {name : Option String} (hname : name ≠ some "") :
    readPairs ⟨none, none, none⟩
        (((query nodeId name).splitOn '&').filter fun pair => !pair.isEmpty) =
      some (.ok ⟨some nodeId, some protocolVersion, name⟩) := by
  have hversion : Seen.record ⟨none, none, none⟩ keyVersion.toList (toString protocolVersion) =
      .ok ⟨none, some protocolVersion, none⟩ := rfl
  have hnodeId : Seen.record ⟨none, some protocolVersion, none⟩ keyNodeId.toList nodeId =
      .ok ⟨some nodeId, some protocolVersion, none⟩ := rfl
  have hall : (((query nodeId name).splitOn '&').filter fun pair => !pair.isEmpty) =
      (query nodeId name).splitOn '&' := by
    rw [List.filter_eq_self, splitOn_query]
    cases name <;> simp [param_ne_nil]
  rw [hall, splitOn_query, readPairs_param (by decide) hversion,
    readPairs_param (by decide) hnodeId]
  cases name with
  | none => rfl
  | some name =>
      have hrecord : Seen.record ⟨some nodeId, some protocolVersion, none⟩ keyName.toList name =
          .ok ⟨some nodeId, some protocolVersion, some name⟩ :=
        congrArg Except.ok (if_neg fun h => hname (congrArg some h))
      exact (readPairs_param (by decide) hrecord []).trans rfl

/-- A text with the parameters of a link is parsed as that link. -/
theorem parse_of_query {raw nodeId : String} {name : Option String} {before : List Char}
    (hid : isNodeId nodeId = true) (hname : name ≠ some "")
    (hraw : raw.toList = before ++ '?' :: query nodeId name)
    (hbefore : (before.all fun c => !isWhitespace c) = true)
    (hquery : queryOf (before ++ '?' :: query nodeId name) = .ok (query nodeId name)) :
    parse raw = some (.ok ⟨protocolVersion, nodeId, name⟩) := by
  have htrim : trim raw = raw := by
    refine trim_eq_self fun c hc => ?_
    rw [hraw] at hc
    rcases List.mem_append.1 hc with hc | hc
    · simpa using List.all_eq_true.1 hbefore c hc
    · rcases List.mem_cons.1 hc with rfl | hc
      · rfl
      · exact isWhitespace_query nodeId name c hc
  have hlink : Seen.link ⟨some nodeId, some protocolVersion, name⟩ =
      .ok ⟨protocolVersion, nodeId, name⟩ := by
    simp only [Seen.link, hid, if_true, Option.getD_some]
  rw [parse, htrim, hraw, hquery]
  simp only [readPairs_query nodeId hname, Option.map_some, Except.bind, hlink]

theorem parse_toUri {nodeId : String} {name : Option String} (hid : isNodeId nodeId = true)
    (hname : name ≠ some "") :
    parse (PairLink.mk protocolVersion nodeId name).toUri =
      some (.ok ⟨protocolVersion, nodeId, name⟩) := by
  have hsplit : scheme.toList ++ ("://".toList ++ (host.toList ++ '?' :: query nodeId name)) =
      (scheme.toList ++ ("://".toList ++ host.toList)) ++ '?' :: query nodeId name := by
    rw [List.append_assoc, List.append_assoc]
  have hquery := queryOf_uri (query nodeId name)
  rw [hsplit] at hquery
  exact parse_of_query hid hname ((toList_toUri nodeId name).trans hsplit) rfl hquery

theorem parse_toWebUri {nodeId : String} (name : Option String) (hid : isNodeId nodeId = true) :
    parse (PairLink.mk protocolVersion nodeId name).toWebUri =
      some (.ok ⟨protocolVersion, nodeId, none⟩) := by
  have hsplit : "https".toList ++ ("://".toList ++ ((webHost.toList ++ '/' :: host.toList) ++
      '?' :: query nodeId none)) =
      ("https".toList ++ ("://".toList ++ (webHost.toList ++ '/' :: host.toList))) ++
        '?' :: query nodeId none := by
    rw [List.append_assoc "https".toList, List.append_assoc "://".toList]
  have hquery := queryOf_webUri (query nodeId none)
  rw [hsplit] at hquery
  exact parse_of_query hid (by rintro ⟨⟩) ((toList_toWebUri nodeId name).trans hsplit) rfl hquery

/-! ## What parsing accepts -/

/-- A parameter leaves no empty name behind. -/
theorem Seen.record_name {seen seen' : Seen} {key : List Char} {value : String}
    (hseen : seen.name ≠ some "") (h : seen.record key value = .ok seen') :
    seen'.name ≠ some "" := by
  rw [Seen.record] at h
  split_ifs at h with hid hversion hname hempty
  · cases h
    exact hseen
  · split at h
    · cases h
      exact hseen
    · cases h
  · cases h
    exact hseen
  · cases h
    exact fun h => hempty (Option.some.inj h)
  · cases h
    exact hseen

theorem readPairs_name {pairs : List (List Char)} {seen seen' : Seen}
    (hseen : seen.name ≠ some "") (h : readPairs seen pairs = some (.ok seen')) :
    seen'.name ≠ some "" := by
  induction pairs generalizing seen with
  | nil =>
      cases h
      exact hseen
  | cons pair rest ih =>
      rw [readPairs] at h
      split at h
      · cases h
      · split at h
        · cases h
        · exact ih (Seen.record_name hseen ‹_›) h

theorem Seen.link_ok {seen : Seen} {link : PairLink} (h : seen.link = .ok link) :
    link.version = protocolVersion ∧ isNodeId link.nodeId = true ∧
      link = { link with name := seen.name } := by
  rw [Seen.link] at h
  split at h
  · cases h
  · split_ifs at h with hid
    dsimp only at h
    split_ifs at h with hversion
    cases h
    exact ⟨hversion, hid, rfl⟩

theorem parse_ok {raw : String} {link : PairLink} (h : parse raw = some (.ok link)) :
    link.version = protocolVersion ∧ isNodeId link.nodeId = true ∧ link.name ≠ some "" := by
  rw [parse] at h
  cases hquery : queryOf (trim raw).toList with
  | error e =>
      rw [hquery] at h
      cases h
  | ok q =>
      rw [hquery] at h
      obtain ⟨outcome, hread, hlink⟩ := Option.map_eq_some_iff.1 h
      cases outcome with
      | error e => cases hlink
      | ok seen =>
          have hstart : (⟨none, none, none⟩ : Seen).name ≠ some "" := (by rintro ⟨⟩)
          have hname := readPairs_name hstart hread
          obtain ⟨hversion, hid, hlink⟩ := Seen.link_ok hlink
          rw [hlink]
          exact ⟨hversion, hid, hname⟩

/-- Links round trip: one that is written is read back, the web form up to the name, and a
    link that was read is read back from what is written of it. -/
theorem links_roundTrip :
    (∀ (nodeId : String) (name : Option String), isNodeId nodeId = true →
      parse (PairLink.new nodeId name).toUri = some (.ok (PairLink.new nodeId name)) ∧
        ∃ link, parse (PairLink.new nodeId name).toWebUri = some (.ok link) ∧
          link.version = (PairLink.new nodeId name).version ∧ link.nodeId = nodeId) ∧
      ∀ (raw : String) (link : PairLink), parse raw = some (.ok link) →
        parse link.toUri = some (.ok link) := by
  refine ⟨fun nodeId name hid => ⟨?_, ?_⟩, fun raw link h => ?_⟩
  · have hname : name.filter (fun name => name != "") ≠ some "" := by
      intro h
      exact absurd (Option.filter_eq_some_iff.1 h).2 (by decide)
    exact parse_toUri hid hname
  · exact ⟨_, parse_toWebUri _ hid, rfl, rfl⟩
  · obtain ⟨hversion, hid, hname⟩ := parse_ok h
    have hlink : link = ⟨protocolVersion, link.nodeId, link.name⟩ := by rw [← hversion]
    rw [hlink]
    exact parse_toUri hid hname

/-- A name with separators and percent signs in it, and an older link. -/
theorem links_roundTrip_desk :
    parse (PairLink.new "n-1" (some "é&%=")).toUri = some (.ok (PairLink.new "n-1" (some "é&%="))) ∧
      parse (PairLink.mk 2 "n-1" none).toUri = some (.ok ⟨2, "n-1", none⟩) := by
  have hid : isNodeId "n-1" = true := rfl
  have hold : parse "livtet://pair?node=n-1" = some (.ok ⟨2, "n-1", none⟩) := rfl
  exact ⟨(links_roundTrip.1 "n-1" (some "é&%=") hid).1, links_roundTrip.2 _ _ hold⟩

end SyncPairLink
