import Ddmp.Discovery.DiscoverTheorems

/-!
# Which cooler is found

Hits are merged, and entries matched, by the last six characters of an id. So two coolers with the
same last three bytes are one entry, with the id that was seen first. `findCooler_iff` says when
that is the cooler that was asked for.
-/

namespace Ddmp

open Lib Lib.Collate

/-- A full id: the twelve hexadecimal digits of a MAC address. -/
def IsFullId (id : List Char) : Prop := id.length = 12 ∧ ∀ c ∈ id, (hexDigit? c).isSome

instance (id : List Char) : Decidable (IsFullId id) :=
  @instDecidableAnd _ _ _ (List.decidableBAll _ id)

theorem IsFullId.ne_nil {id : List Char} (h : IsFullId id) : id ≠ [] := by
  rintro rfl
  exact absurd h.1 (by decide)

/-- The last six characters are no name key. -/
theorem IsFullId.rtake_ne {id : List Char} (h : IsFullId id) (name : List Char) :
    "name:".toList ++ name ≠ id.rtake 6 := by
  intro heq
  have hmem : 'n' ∈ id.rtake 6 := heq ▸ List.mem_cons_self
  have hhex := h.2 'n' (List.drop_subset _ _ hmem)
  exact absurd hhex (by decide)

/-- The replies that `discover` sees, in the order in which they are remembered. -/
def Seen.replies (seen : Seen) : List DdmdReply :=
  seen.services.flatMap (fun s => if Falsy "" s.1.addresses.head? then [] else s.2)
    ++ seen.broadcast ++ seen.hosts.flatten

/-- The first id that a reply carries with the same last six characters. -/
def Seen.firstId (seen : Seen) (wanted : List Char) : Option (List Char) :=
  (seen.replies.map DdmdReply.coolerId).find? fun id => id ≠ [] ∧ id.rtake 6 = wanted.rtake 6

namespace Discovered

variable {lower : List Char → List Char} {d : Discovered} {coolerId : List Char}

theorem matchesId_iff (h : IsFullId (normalizeId lower coolerId)) :
    d.matchesId lower coolerId = true
      ↔ d.key lower = (normalizeId lower coolerId).rtake 6 := by
  have hkey : d.key lower = (normalizeId lower coolerId).rtake 6
      ↔ d.shortId lower = (normalizeId lower coolerId).rtake 6 := by
    by_cases hshort : d.shortId lower = []
    · have hname : d.key lower = "name:".toList ++ lower d.name := if_neg (not_not.mpr hshort)
      rw [hname, hshort]
      exact iff_of_false (h.rtake_ne _) (rtake_ne_nil h.ne_nil).symm
    · have hshort' : d.key lower = d.shortId lower := if_pos hshort
      rw [hshort']
  rw [hkey, matchesId]
  split
  · rename_i hsame
    rw [shortId, if_pos hsame.1, hsame.2]
    exact iff_of_true rfl rfl
  · simp [h.ne_nil, eq_comm]

end Discovered

open Discovered

section

variable {lower : List Char → List Char} {seen : Seen} {coolerId : List Char} {d : Discovered}

theorem mem_discover_iff :
    d ∈ discover lower seen ↔ (found lower seen.hits).get? (d.key lower) = some d := by
  rw [discover, (List.perm_insertionSort _ _).mem_iff, List.mem_map]
  constructor
  · rintro ⟨⟨k, e⟩, hmem, rfl⟩
    have hget := (Dict.lookup_eq_some_iff (found lower seen.hits).nodup).mpr hmem
    rwa [key_of_found hget]
  · intro hget
    exact ⟨_, (Dict.lookup_eq_some_iff (found lower seen.hits).nodup).mp hget, rfl⟩

/-- `find_cooler` returns the one entry whose key is the tail of the id. -/
theorem findCooler_eq (h : IsFullId (normalizeId lower coolerId)) : findCooler lower seen coolerId
    = (found lower seen.hits).get? ((normalizeId lower coolerId).rtake 6) := by
  rw [findCooler]
  cases hfind : (discover lower seen).find? fun d => d.matchesId lower coolerId with
  | some d =>
    have hmatches := List.find?_some hfind
    rw [← (matchesId_iff h).mp hmatches, mem_discover_iff.mp (List.mem_of_find?_eq_some hfind)]
  | none =>
    cases hget : (found lower seen.hits).get? ((normalizeId lower coolerId).rtake 6) with
    | none => rfl
    | some e =>
      have hkey := key_of_found hget
      have hmem : e ∈ discover lower seen := mem_discover_iff.mpr (hkey ▸ hget)
      exact absurd ((matchesId_iff h).mpr hkey) (List.find?_eq_none.mp hfind e hmem)

/-- The ids of the hits are those of the replies: a service has none. -/
theorem ids_hits (seen : Seen) : (seen.hits.map Discovered.coolerId).filter (· ≠ [])
    = (seen.replies.map DdmdReply.coolerId).filter (· ≠ []) := by
  have hreplies (source : Source) (replies : List DdmdReply) :
      ((replies.map (fromReply · source)).map Discovered.coolerId).filter (· ≠ [])
        = (replies.map DdmdReply.coolerId).filter (· ≠ []) := by
    rw [List.map_map]
    rfl
  have hservice (s : MdnsService × List DdmdReply) :
      ((serviceHits s.1 s.2).map Discovered.coolerId).filter (· ≠ [])
        = ((if Falsy "" s.1.addresses.head? then [] else s.2).map DdmdReply.coolerId).filter
          (· ≠ []) := by
    have hself : ([fromService s.1].map Discovered.coolerId).filter (· ≠ []) = [] := rfl
    rw [serviceHits, List.map_append, List.filter_append, hself, List.append_nil]
    split
    · rfl
    · exact hreplies .probe s.2
  rw [Seen.hits, Seen.replies, ← List.flatMap_id]
  simp only [List.map_append, List.filter_append, List.map_flatMap, List.filter_flatMap,
    hservice, hreplies, id_eq]

/-- The first id with the tail of the wanted one, as the hits have it. -/
theorem firstId_eq (lower : List Char → List Char) (seen : Seen) (wanted : List Char) :
    seen.firstId wanted = ((seen.hits.filter fun d => d.key lower = wanted.rtake 6).map
      Discovered.coolerId).find? fun id => ¬ id = [] := by
  have hids (ids : List (List Char)) :
      (ids.find? fun id => id ≠ [] ∧ id.rtake 6 = wanted.rtake 6)
        = (ids.filter (· ≠ [])).find? fun id => id.rtake 6 = wanted.rtake 6 := by
    rw [List.find?_filter]
    congr 1
    funext id
    simp
  rw [Seen.firstId, hids, ← ids_hits, ← hids, List.find?_map, List.find?_map, List.find?_filter]
  congr 2
  funext d
  by_cases hid : d.coolerId = []
  · simp [hid]
  · simp [hid, key_of_id hid]

/-- The entry has the first id of its key, if there is one. -/
theorem coolerId_of_found (h : IsFullId (normalizeId lower coolerId))
    (hfound : findCooler lower seen coolerId = some d) :
    seen.firstId (normalizeId lower coolerId)
      = if d.coolerId = [] then none else some d.coolerId := by
  rw [findCooler_eq h] at hfound
  have hfield : merged (firstOf (· = [])) _ = some d.coolerId :=
    field_of_found (fun _ _ => rfl) hfound
  rw [firstId_eq lower]
  split
  · rename_i hempty
    rw [List.find?_eq_none]
    intro id hid
    simpa using (first_spec hfield).2 hempty id hid
  · rename_i hne
    exact first_eq_find? hfield hne

/-- Where some reply carries an id with the tail of the wanted one, an entry is found. -/
theorem exists_of_firstId (h : IsFullId (normalizeId lower coolerId)) {id : List Char}
    (hfirst : seen.firstId (normalizeId lower coolerId) = some id) :
    ∃ d, findCooler lower seen coolerId = some d ∧ d.coolerId = id := by
  have hhit : ∃ d ∈ seen.hits, d.key lower = (normalizeId lower coolerId).rtake 6 := by
    have hmem := List.mem_of_find?_eq_some ((firstId_eq lower seen _).symm.trans hfirst)
    obtain ⟨d, hd, -⟩ := List.mem_map.mp hmem
    obtain ⟨hd, hkey⟩ := List.mem_filter.mp hd
    exact ⟨d, hd, of_decide_eq_true hkey⟩
  obtain ⟨d, hd⟩ := Option.isSome_iff_exists.mp (isSome_found_iff.mpr hhit)
  rw [← findCooler_eq h] at hd
  have hid := coolerId_of_found h hd
  rw [hfirst] at hid
  split at hid
  · cases hid
  · exact ⟨d, hd, (Option.some.inj hid).symm⟩

end

/-- `find_cooler` finds the cooler that was asked for, by its full id, exactly if the first reply
with an id of the same tail carries that id, or carries no full id and no reply carries the
wanted one. -/
theorem findCooler_iff (lower : List Char → List Char) (seen : Seen) (coolerId : List Char)
    (h : IsFullId (normalizeId lower coolerId)) :
    ((∀ d, findCooler lower seen coolerId = some d → IsFullId d.coolerId →
        d.coolerId = normalizeId lower coolerId)
      ∧ ((∃ r ∈ seen.replies, r.coolerId = normalizeId lower coolerId) →
        ∃ d, findCooler lower seen coolerId = some d ∧ d.coolerId = normalizeId lower coolerId))
    ↔ ∀ id, seen.firstId (normalizeId lower coolerId) = some id →
        id = normalizeId lower coolerId
        ∨ ¬ IsFullId id ∧ ∀ r ∈ seen.replies, r.coolerId ≠ normalizeId lower coolerId := by
  constructor
  · rintro ⟨hfull, hseen⟩ id hfirst
    obtain ⟨d, hd, rfl⟩ := exists_of_firstId h hfirst
    by_cases hid : IsFullId d.coolerId
    · exact .inl (hfull d hd hid)
    · by_cases hcarried : ∃ r ∈ seen.replies, r.coolerId = normalizeId lower coolerId
      · obtain ⟨d', hd', hid'⟩ := hseen hcarried
        obtain rfl := Option.some.inj (hd.symm.trans hd')
        exact .inl hid'
      · exact .inr ⟨hid, fun r hr hsame => hcarried ⟨r, hr, hsame⟩⟩
  · intro hfirst
    refine ⟨fun d hd hid => ?_, ?_⟩
    · have hid' := coolerId_of_found h hd
      rw [if_neg hid.ne_nil] at hid'
      exact (hfirst _ hid').resolve_right fun hnot => hnot.1 hid
    · rintro ⟨r, hr, hsame⟩
      obtain ⟨id, hid⟩ : ∃ id, seen.firstId (normalizeId lower coolerId) = some id := by
        rw [← Option.isSome_iff_exists, Seen.firstId, List.find?_isSome]
        exact ⟨_, List.mem_map_of_mem hr, by simp [hsame, h.ne_nil]⟩
      obtain ⟨d, hd, rfl⟩ := exists_of_firstId h hid
      exact ⟨d, hd, (hfirst _ hid).resolve_right fun hnot => hnot.2 r hr hsame⟩

/-- A reply to the broadcast that carries an id. -/
def replyOf (id : String) (host : String) : DdmdReply where
  coolerId := id.toList
  name := "MC1_34f12c".toList
  sku := []
  version := 2
  pid := 4
  f := 0
  host
  port := 13143

/-- What `discover` sees when only these reply. -/
def seenReplies (replies : List DdmdReply) : Seen where
  services := []
  broadcast := replies
  hosts := []

/-- One cooler is found by its id, however the id is written. -/
theorem findCooler_one : ∃ d,
    findCooler strLower (seenReplies [replyOf "14335c34f12c" "10.0.0.1"]) "14:33:5C:34:F1:2C".toList
        = some d
      ∧ d.coolerId = "14335c34f12c".toList := by
  have hwanted : normalizeId strLower "14:33:5C:34:F1:2C".toList = "14335c34f12c".toList := by
    decide +kernel
  have hiff := findCooler_iff strLower (seenReplies [replyOf "14335c34f12c" "10.0.0.1"])
    "14:33:5C:34:F1:2C".toList (by rw [hwanted]; decide +kernel)
  rw [hwanted] at hiff
  have hfirst : (seenReplies [replyOf "14335c34f12c" "10.0.0.1"]).firstId "14335c34f12c".toList
      = some "14335c34f12c".toList := by decide +kernel
  refine (hiff.mpr fun id hid => .inl ?_).2 ⟨_, List.mem_singleton_self _, rfl⟩
  exact Option.some.inj (hid.symm.trans hfirst)

/-- Two coolers with the same last three bytes reply: the one that is found is the one that
replied first. -/
theorem findCooler_wrong : ∃ d,
    IsFullId (normalizeId strLower "14335c34f12c".toList)
      ∧ (∃ r ∈ (seenReplies [replyOf "aabbcc34f12c" "10.0.0.1",
          replyOf "14335c34f12c" "10.0.0.2"]).replies,
        r.coolerId = normalizeId strLower "14335c34f12c".toList)
      ∧ findCooler strLower (seenReplies [replyOf "aabbcc34f12c" "10.0.0.1",
          replyOf "14335c34f12c" "10.0.0.2"]) "14335c34f12c".toList = some d
      ∧ IsFullId d.coolerId ∧ d.coolerId ≠ normalizeId strLower "14335c34f12c".toList := by
  refine ⟨fromReply (replyOf "aabbcc34f12c" "10.0.0.1") .broadcast, by decide +kernel,
    by decide +kernel, by decide +kernel, by decide +kernel, by decide +kernel⟩

end Ddmp
