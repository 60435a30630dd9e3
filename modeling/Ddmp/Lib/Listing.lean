import Ddmp.Lib.Spelling
import Mathlib.Data.Finset.Insert

/-!
# Listings by lookups

A listing has a row for every spelling of a key that occurs, with what is found for it in one log
and in another. `rows_eq_iff` says when the rows are the same however keys and logs are spelt: the
keys with several spellings occur once, and what can be found for a key is always the same.
-/

namespace Lib

namespace Spelling

open Dict

variable {κ φ ν τ : Type*}

section definitions

variable [DecidableEq κ] [DecidableEq φ] (S : Spelling κ φ)

/-- The row of a key: its fold, what is found for it in a log, and what is found in another one, if
anything is. -/
def row (log : List (κ × ν)) (extra : List (κ × τ)) (dflt : τ) (k : κ) :
    Option (φ × ν × τ) :=
  (S.found log k).map fun v => (S.fold k, v, (S.found extra k).getD dflt)

/-- The rows of some keys, one for every spelling that occurs. -/
def rows (keys : List κ) (log : List (κ × ν)) (extra : List (κ × τ))
    (dflt : τ) : Multiset (φ × ν × τ) :=
  keys.toFinset.val.filterMap (S.row log extra dflt)

/-- A key with a row and with several spellings occurs once, and whatever is found for a key with a
row is settled. -/
structure Steady (keys : List κ) (log : List (κ × ν)) (extra : List (κ × τ)) :
    Prop where
  once : keys.Pairwise fun k k' =>
    S.plain k' = S.plain k → (S.first? log k).isSome → S.Fixed k
  settled : ∀ k ∈ keys, S.Settled log k
  settled_extra : ∀ k ∈ keys, (S.first? log k).isSome → S.Settled extra k

/-- The rows are the same in all spellings of the keys and of both logs. -/
def SpellingFree (keys : List κ) (log : List (κ × ν)) (extra : List (κ × τ))
    (dflt : τ) : Prop :=
  ∀ ⦃keys' log' extra'⦄, keys'.map S.plain = keys.map S.plain → S.plainLog log' = S.plainLog log →
    S.plainLog extra' = S.plainLog extra →
    S.rows keys' log' extra' dflt = S.rows keys log extra dflt

end definitions

variable {S : Spelling κ φ} {log log' pre post : List (κ × ν)} {k k' key : κ} {v w : ν}

/-! ## Logs in a given spelling -/

/-- A log is spelt plainly but for the spellings of one key. -/
def PlainBut (S : Spelling κ φ) (b : κ) (log' log : List (κ × ν)) : Prop :=
  S.plainLog log' = S.plainLog log ∧ ∀ e ∈ log', S.plain e.1 ≠ b → e.1 = S.plain e.1

/-- Plain entries in front of others. -/
theorem PlainBut.plainLog_append {b : κ} {tail : List (κ × ν)} (h : S.PlainBut b tail post) :
    S.PlainBut b (S.plainLog pre ++ tail) (pre ++ post) := by
  constructor
  · rw [Spelling.plainLog_append, Spelling.plainLog_append, plainLog_plainLog, h.1]
  · intro e he hb
    rcases List.mem_append.mp he with he | he
    · exact (plain_of_mem_plainLog he).symm
    · exact h.2 e he hb

theorem PlainBut.cons {b : κ} {tail : List (κ × ν)} (h : S.PlainBut b tail post) :
    S.PlainBut b ((S.plain key, v) :: tail) ((key, v) :: post) := by
  constructor
  · rw [plainLog_cons, plainLog_cons, S.plain_plain, h.1]
  · intro e he hb
    rcases List.mem_cons.mp he with rfl | he
    · exact (S.plain_plain key).symm
    · exact h.2 e he hb

/-- If the key of an entry has the fold of another key, and the entries before it are plain, then
the first entry with this fold has a plain key. -/
theorem exists_first?_plain [DecidableEq φ] {first : κ × ν} {tail : List (κ × ν)}
    (hlog : S.plainLog (S.plainLog pre ++ (S.plain key, v) :: tail)
      = S.plainLog (pre ++ (key, v) :: post))
    (hfirst : S.first? (pre ++ (key, v) :: post) k = some first)
    (hplain : S.plain first.1 = S.plain key) :
    ∃ first', S.first? (S.plainLog pre ++ (S.plain key, v) :: tail) k = some first'
      ∧ first'.1 = S.plain key := by
  have hsome := first?_plainLog hlog (k := k) rfl
  rw [hfirst, Option.map_some, Option.map_eq_some_iff] at hsome
  obtain ⟨first', hfirst', heq⟩ := hsome
  have hplain' : S.plain first'.1 = S.plain key := (Prod.mk.inj heq).1.trans hplain
  refine ⟨first', hfirst', ?_⟩
  rw [first?, List.find?_append, Option.or_eq_some_iff] at hfirst'
  rcases hfirst' with hpre | ⟨-, htail⟩
  · rw [← hplain']
    exact (plain_of_mem_plainLog (List.mem_of_find?_eq_some hpre)).symm
  · have hfold : S.fold (S.plain key) = S.fold k := by
      rw [← hplain, S.fold_plain]
      exact fold_of_first? hfirst
    rw [List.find?_cons_of_pos (by simpa using hfold)] at htail
    rw [← Option.some.inj htail]

variable [DecidableEq κ]

/-- Under the other keys there is what there is in the plain spelling. -/
theorem PlainBut.assigned_eq {b c : κ} (h : S.PlainBut b log' log) (hc : S.plain c = c)
    (hne : c ≠ b) : assigned c log' = assigned c (S.plainLog log) := by
  rw [← h.1, assigned, assigned, plainLog, List.filter_map, List.map_map]
  refine congrArg _ (List.filter_congr fun e he => ?_)
  simp only [Function.comp_apply, decide_eq_decide]
  constructor
  · rintro rfl
    exact hc
  · intro hplain
    rw [h.2 e he (hplain ▸ hne), hplain]

/-- A log in its plain spelling but for one key, which is spelt in another way. -/
def respelt (S : Spelling κ φ) (b alt : κ) (log : List (κ × ν)) : List (κ × ν) :=
  log.map fun e => (if S.plain e.1 = b then alt else S.plain e.1, e.2)

theorem plainBut_respelt {b alt : κ} (halt : S.plain alt = b) (log : List (κ × ν)) :
    S.PlainBut b (S.respelt b alt log) log := by
  have hplain (e : κ × ν) :
      S.plain (if S.plain e.1 = b then alt else S.plain e.1) = S.plain e.1 := by
    split
    · rename_i heq
      rw [halt, heq]
    · exact S.plain_plain e.1
  constructor
  · rw [plainLog, respelt, List.map_map]
    exact List.map_congr_left fun e _ => Prod.ext (hplain e) rfl
  · intro e he hb
    obtain ⟨e, -, rfl⟩ := List.mem_map.mp he
    dsimp only at hb ⊢
    rw [hplain] at hb ⊢
    exact if_neg hb

theorem not_mem_respelt {b alt : κ} (h : ∀ e ∈ log, S.plain e.1 = b → alt ≠ b) :
    b ∉ (S.respelt b alt log).map Prod.fst := by
  simp only [respelt, List.map_map, List.mem_map, Function.comp_apply, not_exists, not_and]
  intro e he heq
  split at heq
  · rename_i hkey
    exact h e he hkey heq
  · rename_i hkey
    exact hkey heq

variable [DecidableEq φ]

/-- The entry can be made the last under the plain spelling of its key. -/
theorem exists_plainBut (pre : List (κ × ν)) (v : ν)
    (hlast : S.Fixed key → key ∉ post.map Prod.fst) :
    ∃ log', S.PlainBut (S.plain key) log' (pre ++ (key, v) :: post)
      ∧ (assigned (S.plain key) log').getLast? = some v
      ∧ ∀ {k first}, S.first? (pre ++ (key, v) :: post) k = some first →
        S.plain first.1 = S.plain key → ∃ first', S.first? log' k = some first'
          ∧ first'.1 = S.plain key := by
  obtain ⟨alt, halt, hne⟩ : ∃ alt, S.plain alt = S.plain key
      ∧ ∀ e ∈ post, S.plain e.1 = S.plain key → alt ≠ S.plain key := by
    by_cases hfixed : S.Fixed key
    · refine ⟨key, rfl, fun e he heq => absurd ?_ (hlast hfixed)⟩
      exact List.mem_map.mpr ⟨e, he, hfixed e.1 heq⟩
    · obtain ⟨alt, halt, hne⟩ := exists_ne_plain hfixed
      exact ⟨alt, halt, fun _ _ _ => hne⟩
  -- before the entry its key is spelt plainly, behind it in another way
  have hlog : S.PlainBut (S.plain key)
      (S.plainLog pre ++ (S.plain key, v) :: S.respelt (S.plain key) alt post)
      (pre ++ (key, v) :: post) := (plainBut_respelt halt post).cons.plainLog_append
  exact ⟨_, hlog, getLast?_assigned_of_last _ v (not_mem_respelt hne), exists_first?_plain hlog.1⟩

/-- A lookup that does not come to the key finds the same in all such logs. -/
theorem PlainBut.found_congr {b q : κ} {log₁ log₂ : List (κ × ν)} (h₁ : S.PlainBut b log₁ log)
    (h₂ : S.PlainBut b log₂ log) (hq : S.plain q = q)
    (hb : S.fold q ≠ S.fold b ∨ q ≠ b ∧ q ∈ (S.plainLog log).map Prod.fst) :
    S.found log₁ q = S.found log₂ q := by
  have hne : q ≠ b := hb.elim (fun hfold heq => hfold (congrArg S.fold heq)) And.left
  have hassigned := (h₁.assigned_eq hq hne).trans (h₂.assigned_eq hq hne).symm
  rw [found, found, hassigned]
  rcases hb with hfold | ⟨-, hmem⟩
  · -- the first entry with the same fold is spelt plainly in both
    have hfirst := first?_plainLog (h₁.1.trans h₂.1.symm) (k := q) rfl
    refine congrArg _ ?_
    cases hfirst₁ : S.first? log₁ q with
    | none =>
      rw [hfirst₁, Option.map_none, eq_comm, Option.map_eq_none_iff] at hfirst
      rw [hfirst]
      rfl
    | some first₁ =>
      rw [hfirst₁, Option.map_some, eq_comm, Option.map_eq_some_iff] at hfirst
      obtain ⟨first₂, hfirst₂, heq⟩ := hfirst
      have hplain : S.plain first₂.1 = S.plain first₁.1 := (Prod.mk.inj heq).1
      have hneb : S.plain first₁.1 ≠ b := by
        rintro rfl
        rw [S.fold_plain, fold_of_first? hfirst₁] at hfold
        exact hfold rfl
      have hkey₁ := h₁.2 first₁ (List.mem_of_find?_eq_some hfirst₁) hneb
      have hkey₂ := h₂.2 first₂ (List.mem_of_find?_eq_some hfirst₂) (hplain ▸ hneb)
      rw [hfirst₂, Option.bind_some, Option.bind_some, hkey₁, hkey₂, hplain,
        h₁.assigned_eq (S.plain_plain _) hneb, h₂.assigned_eq (S.plain_plain _) hneb]
  · obtain ⟨w, hw⟩ := Option.isSome_iff_exists.mp (isSome_getLast?_assigned hmem)
    rw [← h₂.assigned_eq hq hne] at hw
    rw [hw, Option.some_or, Option.some_or]

/-- A lookup that misses the key itself finds what is last under the key of the first entry. -/
theorem found_of_first? {first : κ × ν} (hlog : S.plainLog log' = S.plainLog log)
    (hk : S.plain k = k) (hmem : k ∉ (S.plainLog log).map Prod.fst)
    (hfirst : S.first? log' k = some first) :
    S.found log' k = (assigned first.1 log').getLast? := by
  have hmiss : k ∉ log'.map Prod.fst := by
    intro hmem'
    obtain ⟨e, he, rfl⟩ := List.mem_map.mp hmem'
    refine hmem (hlog ▸ ?_)
    exact List.mem_map.mpr ⟨(S.plain e.1, e.2), List.mem_map.mpr ⟨e, he, rfl⟩, hk⟩
  rw [found_of_not_mem hmiss, hfirst, Option.bind_some]

/-! ## Listings that do not depend on the spelling -/

/-- What is listed for some keys by looking them up in a log: the same for all spellings of a key,
and the same on the whole for all spellings of the log. -/
structure Unseen {α : Type*} (S : Spelling κ φ) (keys : List κ) (Listed : κ → Prop)
    (log : List (κ × ν)) (view : Option ν → α) : Prop where
  key : ∀ {k a b log'}, k ∈ keys → Listed k → S.plainLog log' = S.plainLog log →
    S.plain a = S.plain k → S.plain b = S.plain k → view (S.found log' a) = view (S.found log' b)
  log : ∀ {log₁ log₂} (p : κ → Prop), S.plainLog log₁ = S.plainLog log →
    S.plainLog log₂ = S.plainLog log →
    (∀ q ∈ keys.map S.plain, ¬ p q → S.found log₁ q = S.found log₂ q) →
    ∀ k ∈ keys, Listed k → p (S.plain k) →
      ∃ q ∈ keys.map S.plain, p q ∧ view (S.found log₁ (S.plain k)) = view (S.found log₂ q)

namespace Unseen

variable {α : Type*} {keys : List κ} {Listed : κ → Prop} {view : Option ν → α}

/-- Of a key with several spellings any entry can be found. -/
theorem view_entry (h : S.Unseen keys Listed (pre ++ (key, v) :: post) view) (hk : k ∈ keys)
    (hlisted : Listed k) (hfixed : ¬ S.Fixed k) (hkey : S.plain key = S.plain k) :
    view (some v) = view (S.found (S.plainLog (pre ++ (key, v) :: post)) (S.plain k)) := by
  obtain ⟨alt, halt, hne⟩ := exists_ne_plain hfixed
  by_cases hlast : S.plain k ∈ (S.plainLog post).map Prod.fst
  · -- the entry is spelt in another way, and is the only one that is
    have hlog : S.plainLog (S.plainLog pre ++ (alt, v) :: S.plainLog post)
        = S.plainLog (pre ++ (key, v) :: post) := by
      rw [plainLog_append, plainLog_append, plainLog_cons, plainLog_cons, plainLog_plainLog,
        plainLog_plainLog, halt, hkey]
    have halt' : alt ∉ (S.plainLog post).map Prod.fst := by
      intro hmem
      obtain ⟨e, he, rfl⟩ := List.mem_map.mp hmem
      obtain ⟨e, -, rfl⟩ := List.mem_map.mp he
      exact hne ((S.plain_plain e.1).symm.trans halt)
    have hsame := h.key hk hlisted hlog halt (S.plain_plain k)
    rw [found_of_last halt'] at hsame
    have hskip {c : κ} (hc : S.plain k ∈ (S.plainLog post).map Prod.fst) :
        S.found (S.plainLog pre ++ (c, v) :: S.plainLog post) (S.plain k)
          = (assigned (S.plain k) (S.plainLog post)).getLast? := by
      obtain ⟨w, hw⟩ := Option.isSome_iff_exists.mp (isSome_getLast?_assigned hc)
      obtain ⟨pre', post', heq, hpost'⟩ := exists_last hw
      rw [hw, heq, ← List.cons_append, ← List.append_assoc, found_of_last hpost']
    rw [hsame, hskip hlast, plainLog_append, plainLog_cons, hskip hlast]
  · rw [plainLog_append, plainLog_cons, hkey, found_of_last hlast]

/-- Of a key with several spellings anything that can be found is the same. -/
theorem view_of_canBeFound (h : S.Unseen keys Listed log view) (hk : k ∈ keys)
    (hlisted : Listed k) (hfixed : ¬ S.Fixed k)
    (hmem : S.plain k ∈ (S.plainLog log).map Prod.fst) (hv : S.CanBeFound log k v) :
    view (some v) = view (S.found (S.plainLog log) (S.plain k)) := by
  obtain ⟨pre, key, post, rfl, hlast, hsame | ⟨-, first, hfirst, hplain⟩⟩ := hv
  · exact h.view_entry hk hlisted hfixed hsame
  · by_cases hkey : S.plain key = S.plain k
    · exact h.view_entry hk hlisted hfixed hkey
    · obtain ⟨log', hlog', hvalue, hfirst'⟩ := exists_plainBut pre v hlast
      obtain ⟨first', hfirst', hfirst'_plain⟩ := hfirst' hfirst hplain.symm
      obtain ⟨alt, halt, hne⟩ := exists_ne_plain hfixed
      have hkey' : S.plain k ≠ S.plain key := Ne.symm hkey
      -- spelt plainly the key is found itself, spelt in another way it is not
      have hfound : S.found log' (S.plain k)
          = S.found (S.plainLog (pre ++ (key, v) :: post)) (S.plain k) := by
        obtain ⟨w, hw⟩ := Option.isSome_iff_exists.mp (isSome_getLast?_assigned hmem)
        rw [found, hlog'.assigned_eq (S.plain_plain k) hkey', found, hw, Option.some_or,
          Option.some_or]
      have halt' : alt ∉ log'.map Prod.fst := by
        intro hmem
        obtain ⟨e, he, rfl⟩ := List.mem_map.mp hmem
        exact hne ((hlog'.2 e he (halt ▸ hkey')).trans halt)
      have hmiss : S.found log' alt = some v := by
        rw [found_of_not_mem halt', first?_congr (fold_eq_of_plain halt), hfirst',
          Option.bind_some, hfirst'_plain, hvalue]
      rw [← hfound, ← hmiss]
      exact h.key hk hlisted hlog'.1 halt (S.plain_plain k)

/-- If the key of two entries is listed, both have the same value if they can be found. -/
theorem eq_of_entries {q key' : κ} {pre' post' : List (κ × ν)}
    (h : S.Unseen keys Listed log view) (hview : Function.Injective fun v => view (some v))
    (hq : q ∈ keys) (hlisted : Listed q) (hlog : log = pre ++ (key, v) :: post)
    (hlog' : log = pre' ++ (key', w) :: post') (hkey : S.plain key = S.plain q)
    (hkey' : S.plain key' = S.plain q) (hlast : S.Fixed key → key ∉ post.map Prod.fst)
    (hlast' : S.Fixed key' → key' ∉ post'.map Prod.fst) : v = w := by
  by_cases hfixed : S.Fixed q
  · obtain rfl := hfixed key hkey
    obtain rfl := hfixed key' hkey'
    have hvalue := getLast?_assigned_of_last pre v (hlast hfixed)
    have hvalue' := getLast?_assigned_of_last pre' w (hlast' hfixed)
    rw [← hlog] at hvalue
    rw [← hlog'] at hvalue'
    exact Option.some.inj (hvalue.symm.trans hvalue')
  · have hvalue := (hlog ▸ h).view_entry hq hlisted hfixed hkey
    have hvalue' := (hlog' ▸ h).view_entry hq hlisted hfixed hkey'
    rw [← hlog] at hvalue
    rw [← hlog'] at hvalue'
    exact hview (hvalue.trans hvalue'.symm)

/-- A key with the fold of another one that is not in the log. -/
def Missed (S : Spelling κ φ) (log : List (κ × ν)) (k q : κ) : Prop :=
  S.fold q = S.fold k ∧ q ∉ (S.plainLog log).map Prod.fst

/-- Two logs that are plain but for a key which is not listed: if this is the key of the first
entry with the fold of a key that is missed, what is last under it is the same in both. -/
theorem view_eq_of_plainBut {log₁ log₂ : List (κ × ν)} {first₁ first₂ : κ × ν}
    (h : S.Unseen keys Listed log view) (hk : k ∈ keys) (hlisted : Listed k)
    (hmem : S.plain k ∉ (S.plainLog log).map Prod.fst) (hfold : S.fold key = S.fold k)
    (hnot : ∀ q ∈ keys, S.plain q ≠ S.plain key) (hlog₁ : S.PlainBut (S.plain key) log₁ log)
    (hlog₂ : S.PlainBut (S.plain key) log₂ log) (hfirst₁ : S.first? log₁ k = some first₁)
    (hfirst₂ : S.first? log₂ k = some first₂) :
    view (assigned first₁.1 log₁).getLast? = view (assigned first₂.1 log₂).getLast? := by
  have hsame : ∀ q ∈ keys.map S.plain, ¬ Missed S log k q →
      S.found log₁ q = S.found log₂ q := by
    intro q hq hmissed
    refine hlog₁.found_congr hlog₂ (plain_of_mem_map hq) ?_
    by_cases hqfold : S.fold q = S.fold k
    · right
      constructor
      · rintro rfl
        obtain ⟨j, hj, hjkey⟩ := List.mem_map.mp hq
        exact hnot j hj hjkey
      · by_contra hqmem
        exact hmissed ⟨hqfold, hqmem⟩
    · left
      rw [S.fold_plain, hfold]
      exact hqfold
  obtain ⟨q, hq, ⟨hqfold, hqmem⟩, heq⟩ :=
    h.log (Missed S log k) hlog₁.1 hlog₂.1 hsame k hk hlisted ⟨S.fold_plain k, hmem⟩
  rwa [found_of_first? hlog₁.1 (S.plain_plain k) hmem
      ((first?_congr (S.fold_plain k)).trans hfirst₁),
    found_of_first? hlog₂.1 (plain_of_mem_map hq) hqmem ((first?_congr hqfold).trans hfirst₂)]
    at heq

/-- Of a key that is always looked up by its fold anything that can be found is the same. -/
theorem view_of_not_mem (h : S.Unseen keys Listed log view)
    (hview : Function.Injective fun v => view (some v)) (hk : k ∈ keys)
    (hlisted : Listed k) (hfold : ∀ {q}, S.fold q = S.fold k → Listed q)
    (hmem : S.plain k ∉ (S.plainLog log).map Prod.fst) (hv : S.CanBeFound log k v)
    (hw : S.CanBeFound log k w) : v = w := by
  have hclass {pre post : List (κ × ν)} {key : κ} {v : ν} (hlog : log = pre ++ (key, v) :: post) :
      S.plain key ≠ S.plain k := by
    rintro heq
    refine hmem (heq ▸ ?_)
    rw [hlog, plainLog_append, plainLog_cons]
    simp
  obtain ⟨pre, key, post, hlog, hlast, hsame | ⟨-, first, hfirst, hplain⟩⟩ := hv
  · exact absurd hsame (hclass hlog)
  obtain ⟨pre', key', post', hlog', hlast', hsame | ⟨-, first', hfirst', hplain'⟩⟩ := hw
  · exact absurd hsame (hclass hlog')
  obtain rfl := Option.some.inj (hfirst.symm.trans hfirst')
  have hkey : S.plain key' = S.plain key := hplain'.trans hplain.symm
  have hkeyfold : S.fold key = S.fold k := by
    rw [fold_eq_of_plain hplain, fold_of_first? hfirst]
  by_cases hfirstlisted : ∃ q ∈ keys, S.plain q = S.plain key
  · -- the key of the first entry is listed itself
    obtain ⟨q, hq, hqkey⟩ := hfirstlisted
    have hqlisted : Listed q := hfold ((fold_eq_of_plain hqkey).trans hkeyfold)
    exact h.eq_of_entries hview hq hqlisted hlog hlog' hqkey.symm (hkey.trans hqkey.symm) hlast
      hlast'
  · -- it is not, and either entry can be made the last under it
    obtain ⟨log₁, hlog₁, hvalue₁, hfirst₁⟩ := exists_plainBut pre v hlast
    obtain ⟨log₂, hlog₂, hvalue₂, hfirst₂⟩ := exists_plainBut pre' w hlast'
    rw [← hlog] at hlog₁ hfirst₁
    rw [← hlog', hkey] at hlog₂ hfirst₂
    rw [hkey] at hvalue₂
    obtain ⟨first₁, hfirst₁, hfirst₁_key⟩ := hfirst₁ hfirst hplain.symm
    obtain ⟨first₂, hfirst₂, hfirst₂_key⟩ := hfirst₂ hfirst hplain.symm
    have heq := h.view_eq_of_plainBut hk hlisted hmem hkeyfold
      (fun q hq hqkey => hfirstlisted ⟨q, hq, hqkey⟩) hlog₁ hlog₂ hfirst₁ hfirst₂
    rw [hfirst₁_key, hfirst₂_key, hvalue₁, hvalue₂] at heq
    exact hview heq

/-- Whatever is listed is settled. -/
theorem settled (h : S.Unseen keys Listed log view)
    (hview : Function.Injective fun v => view (some v)) (hk : k ∈ keys) (hlisted : Listed k)
    (hfold : ∀ {q}, S.fold q = S.fold k → Listed q) : S.Settled log k := by
  intro v w hv hw
  by_cases hmem : S.plain k ∈ (S.plainLog log).map Prod.fst
  · by_cases hfixed : S.Fixed k
    · -- the key is found itself, and always its last entry
      have hself : S.plain k = k := hfixed _ (S.plain_plain k)
      have hmem' : k ∈ log.map Prod.fst :=
        hfixed.mem_of_plainLog (plainLog_plainLog log).symm (hself ▸ hmem)
      have hlast {v : ν} (hv : S.CanBeFound log k v) :
          (assigned k log).getLast? = some v := by
        obtain ⟨pre, key, post, rfl, hlast, hsame | ⟨hmiss, -⟩⟩ := hv
        · obtain rfl := hfixed key hsame
          exact getLast?_assigned_of_last pre v (hlast hfixed)
        · exact absurd hmem' (hmiss hfixed)
      exact Option.some.inj ((hlast hv).symm.trans (hlast hw))
    · exact hview ((h.view_of_canBeFound hk hlisted hfixed hmem hv).trans
        (h.view_of_canBeFound hk hlisted hfixed hmem hw).symm)
  · exact h.view_of_not_mem hview hk hlisted hfold hmem hv hw

end Unseen

/-! ## Rows -/

/-- Where two choices from a collection differ, they choose the same on the whole. -/
theorem exists_of_filterMap_eq {α β : Type*} {s : Multiset α} {f g : α → Option β}
    (h : s.filterMap f = s.filterMap g) (p : α → Prop) (hsame : ∀ a ∈ s, ¬ p a → f a = g a)
    {a : α} (ha : a ∈ s) (hp : p a) {b : β} (hb : f a = some b) :
    ∃ a' ∈ s, p a' ∧ g a' = some b := by
  classical
  have hrest : (s.filter fun a => ¬ p a).filterMap f = (s.filter fun a => ¬ p a).filterMap g := by
    induction s using Quot.inductionOn with
    | h l =>
      have hl : (l.filter fun a => ¬ p a).filterMap f = (l.filter fun a => ¬ p a).filterMap g := by
        apply List.filterMap_congr
        intro a ha
        obtain ⟨ha, hnot⟩ := List.mem_filter.mp ha
        exact hsame a ha (of_decide_eq_true hnot)
      exact congrArg _ hl
  rw [← Multiset.filter_add_not p s, Multiset.filterMap_add, Multiset.filterMap_add, hrest] at h
  have hmem : b ∈ (s.filter p).filterMap f :=
    (Multiset.mem_filterMap f _).mpr ⟨a, Multiset.mem_filter.mpr ⟨ha, hp⟩, hb⟩
  rw [Multiset.add_left_inj.mp h] at hmem
  obtain ⟨a', ha', hb'⟩ := (Multiset.mem_filterMap g _).mp hmem
  obtain ⟨ha', hp'⟩ := Multiset.mem_filter.mp ha'
  exact ⟨a', ha', hp', hb'⟩

section rows

variable {keys keys' : List κ} {extra extra' : List (κ × τ)} {dflt : τ}

theorem isSome_row (log : List (κ × ν)) (extra : List (κ × τ)) (dflt : τ) (k : κ) :
    (S.row log extra dflt k).isSome = (S.first? log k).isSome := by
  rw [row, Option.isSome_map, isSome_found]

theorem rows_cons_of_mem (h : k ∈ keys) :
    S.rows (k :: keys) log extra dflt = S.rows keys log extra dflt := by
  rw [rows, List.toFinset_cons, Finset.insert_eq_of_mem (List.mem_toFinset.mpr h), ← rows]

theorem rows_cons_of_not_mem (h : k ∉ keys) : S.rows (k :: keys) log extra dflt
    = (k ::ₘ keys.toFinset.val).filterMap (S.row log extra dflt) := by
  rw [rows, List.toFinset_cons, Finset.insert_val_of_notMem (mt List.mem_toFinset.mp h)]

theorem rows_cons_none (h : S.row log extra dflt k = none) :
    S.rows (k :: keys) log extra dflt = S.rows keys log extra dflt := by
  by_cases hk : k ∈ keys
  · exact rows_cons_of_mem hk
  · rw [rows_cons_of_not_mem hk, Multiset.filterMap_cons_none _ _ h, ← rows]

theorem rows_cons_some (hk : k ∉ keys) {r : φ × ν × τ} (h : S.row log extra dflt k = some r) :
    S.rows (k :: keys) log extra dflt = r ::ₘ S.rows keys log extra dflt := by
  rw [rows_cons_of_not_mem hk, Multiset.filterMap_cons_some _ _ _ h, ← rows]

/-- The order of the keys does not matter. -/
theorem rows_middle (x y : List κ) :
    S.rows (x ++ k :: y) log extra dflt = S.rows (k :: (x ++ y)) log extra dflt := by
  rw [rows, rows, List.toFinset_eq_of_perm _ _ List.perm_middle]

/-- The rows of a steady listing do not depend on the spelling. -/
theorem rows_eq_of_steady (h : S.Steady keys log extra)
    (hkeys : keys'.map S.plain = keys.map S.plain)
    (hlog : S.plainLog log' = S.plainLog log) (hextra : S.plainLog extra' = S.plainLog extra) :
    S.rows keys' log' extra' dflt = S.rows keys log extra dflt := by
  induction keys generalizing keys' with
  | nil =>
    obtain rfl := List.map_eq_nil_iff.mp hkeys
    rfl
  | cons k keys ih =>
    obtain ⟨k', keys', rfl, hk, htail⟩ := List.map_eq_cons_iff.mp hkeys
    obtain ⟨honce, honce_tail⟩ := List.pairwise_cons.mp h.once
    have hrest := ih ⟨honce_tail, fun j hj => h.settled j (List.mem_cons_of_mem k hj),
      fun j hj => h.settled_extra j (List.mem_cons_of_mem k hj)⟩ htail
    by_cases hsome : (S.first? log k).isSome
    · have hrow : S.row log' extra' dflt k' = S.row log extra dflt k := by
        rw [row, row, found_eq_of_settled (h.settled k List.mem_cons_self) hlog hk,
          found_eq_of_settled (h.settled_extra k List.mem_cons_self hsome) hextra hk,
          fold_eq_of_plain hk]
      by_cases hmem : k ∈ keys
      · -- a key that occurs twice has one spelling
        have hfixed := honce k hmem rfl hsome
        obtain rfl := hfixed k' hk
        have hmem' : k' ∈ keys' := by
          obtain ⟨j, hj, hplain⟩ := List.mem_map.mp (htail ▸ List.mem_map_of_mem hmem)
          exact hfixed j hplain ▸ hj
        rw [rows_cons_of_mem hmem, rows_cons_of_mem hmem', hrest]
      · have hmem' : k' ∉ keys' := by
          intro hk'
          obtain ⟨j, hj, hplain⟩ := List.mem_map.mp (htail ▸ List.mem_map_of_mem hk')
          have hfixed := honce j hj (hplain.trans hk) hsome
          exact hmem (hfixed j (hplain.trans hk) ▸ hj)
        obtain ⟨r, hr⟩ := Option.isSome_iff_exists.mp ((isSome_row log extra dflt k).trans hsome)
        rw [rows_cons_some hmem hr, rows_cons_some hmem' (hrow.trans hr), hrest]
    · have hnone : S.row log extra dflt k = none :=
        Option.not_isSome_iff_eq_none.mp fun hrow =>
        hsome ((isSome_row log extra dflt k).symm.trans hrow)
      have hnone' : S.row log' extra' dflt k' = none := by
        rw [row, Option.map_eq_none_iff, ← Option.not_isSome_iff_eq_none,
          isSome_found_plainLog hlog (fold_eq_of_plain hk), isSome_found]
        exact hsome
      rw [rows_cons_none hnone, rows_cons_none hnone', hrest]

end rows

namespace SpellingFree

variable {keys : List κ} {extra extra' : List (κ × τ)} {dflt : τ}

/-- A key with several spellings that occurred twice could have one row or two. -/
theorem fixed (h : S.SpellingFree keys log extra dflt) {x y : List κ} {a b : κ}
    (hkeys : keys = x ++ a :: y) (hb : b ∈ y) (hab : S.plain b = S.plain a)
    (hsome : (S.first? log a).isSome) : S.Fixed a := by
  by_contra hfixed
  obtain ⟨alt, halt, hne⟩ := exists_ne_plain hfixed
  subst hkeys
  have honce := (h (map_plain_middle x y (S.plain_plain a)) rfl rfl).trans
    (h (map_plain_middle x y halt) rfl rfl).symm
  have hmem : S.plain a ∈ x.map S.plain ++ y.map S.plain :=
    List.mem_append_right _ (hab ▸ List.mem_map_of_mem hb)
  have hnot : alt ∉ x.map S.plain ++ y.map S.plain := by
    rw [← List.map_append, List.mem_map]
    rintro ⟨j, -, rfl⟩
    exact hne ((S.plain_plain j).symm.trans halt)
  obtain ⟨r, hr⟩ := Option.isSome_iff_exists.mp
    ((isSome_row log extra dflt alt).trans
      (first?_congr (fold_eq_of_plain halt) ▸ hsome))
  rw [rows_middle, rows_cons_of_mem hmem, rows_middle, rows_cons_some hnot hr] at honce
  exact absurd (congrArg Multiset.card honce) (by rw [Multiset.card_cons]; omega)

theorem once (h : S.SpellingFree keys log extra dflt) : keys.Pairwise fun k k' =>
    S.plain k' = S.plain k → (S.first? log k).isSome → S.Fixed k := by
  refine List.pairwise_iff_forall_sublist.mpr fun {a b} hab hplain hsome => ?_
  obtain ⟨r₁, r₂, hkeys, ha, hb⟩ := List.cons_sublist_iff.mp hab
  obtain ⟨x, y, rfl⟩ := List.append_of_mem ha
  rw [List.append_assoc, List.cons_append] at hkeys
  exact h.fixed hkeys (List.mem_append_right y (List.singleton_sublist.mp hb)) hplain hsome

/-- The row of a key is the same in all spellings of the key. -/
theorem row_eq (h : S.SpellingFree keys log extra dflt) (hk : k ∈ keys)
    (hsome : (S.first? log k).isSome) (hlog : S.plainLog log' = S.plainLog log)
    (hextra : S.plainLog extra' = S.plainLog extra) {a b : κ} (ha : S.plain a = S.plain k)
    (hb : S.plain b = S.plain k) : S.row log' extra' dflt a = S.row log' extra' dflt b := by
  by_cases hfixed : S.Fixed k
  · rw [hfixed a ha, hfixed b hb]
  obtain ⟨x, y, rfl⟩ := List.append_of_mem hk
  -- no other of the keys is a spelling of this one
  have honce : ∀ j ∈ x ++ y, S.plain j ≠ S.plain k := by
    obtain ⟨-, hy, hxy⟩ := List.pairwise_append.mp h.once
    obtain ⟨hy, -⟩ := List.pairwise_cons.mp hy
    intro j hj hplain
    rcases List.mem_append.mp hj with hj | hj
    · have hfixed' := hxy j hj k List.mem_cons_self hplain.symm
        (first?_congr (fold_eq_of_plain hplain) ▸ hsome)
      exact hfixed (hfixed' k hplain.symm ▸ hfixed')
    · exact hfixed (hy j hj hplain hsome)
  have hrows {c : κ} (hc : S.plain c = S.plain k) : ∃ r, S.row log' extra' dflt c = some r
      ∧ S.rows (x ++ k :: y) log extra dflt
        = r ::ₘ S.rows (x.map S.plain ++ y.map S.plain) log' extra' dflt := by
    have hnot : c ∉ x.map S.plain ++ y.map S.plain := by
      rw [← List.map_append, List.mem_map]
      rintro ⟨j, hj, rfl⟩
      exact honce j hj ((S.plain_plain j).symm.trans hc)
    have hsome' : (S.row log' extra' dflt c).isSome := by
      rw [isSome_row, ← isSome_found, isSome_found_plainLog hlog (fold_eq_of_plain hc),
        isSome_found]
      exact hsome
    obtain ⟨r, hr⟩ := Option.isSome_iff_exists.mp hsome'
    refine ⟨r, hr, ?_⟩
    rw [← h (map_plain_middle x y hc) hlog hextra, rows_middle, rows_cons_some hnot hr]
  obtain ⟨r, hr, hrowsa⟩ := hrows ha
  obtain ⟨r', hr', hrowsb⟩ := hrows hb
  rw [hr, hr', (Multiset.cons_inj_left _).mp (hrowsa.symm.trans hrowsb)]

/-- Where two spellings of the logs have different rows, they have the same rows on the whole. -/
theorem exists_row (h : S.SpellingFree keys log extra dflt) {log₁ log₂ : List (κ × ν)}
    {extra₁ extra₂ : List (κ × τ)} (hlog₁ : S.plainLog log₁ = S.plainLog log)
    (hlog₂ : S.plainLog log₂ = S.plainLog log) (hextra₁ : S.plainLog extra₁ = S.plainLog extra)
    (hextra₂ : S.plainLog extra₂ = S.plainLog extra) (p : κ → Prop)
    (hsame : ∀ q ∈ keys.map S.plain, ¬ p q →
      S.row log₁ extra₁ dflt q = S.row log₂ extra₂ dflt q)
    (hk : k ∈ keys.map S.plain) (hp : p k) {r : φ × ν × τ}
    (hr : S.row log₁ extra₁ dflt k = some r) :
    ∃ q ∈ keys.map S.plain, p q ∧ S.row log₂ extra₂ dflt q = some r := by
  have hrows := (h (map_plain_map_plain keys) hlog₁ hextra₁).trans
    (h (map_plain_map_plain keys) hlog₂ hextra₂).symm
  obtain ⟨q, hq, hpq, hrow⟩ := exists_of_filterMap_eq hrows p
    (fun q hq => hsame q (List.mem_toFinset.mp hq)) (List.mem_toFinset.mpr hk) hp hr
  exact ⟨q, List.mem_toFinset.mp hq, hpq, hrow⟩

/-- What is found in the log depends on the spelling only as the rows do. -/
theorem unseen_log (h : S.SpellingFree keys log extra dflt) :
    S.Unseen keys (fun k => (S.first? log k).isSome) log id where
  key {k a b log'} hk hsome hlog ha hb := by
    have hrow := congrArg (Option.map fun r => r.2.1) (h.row_eq hk hsome hlog rfl ha hb)
    rwa [row, row, Option.map_map, Option.map_map, Function.comp_def, Function.comp_def,
      Option.map_id', Option.map_id'] at hrow
  log {log₁ log₂} p hlog₁ hlog₂ hsame k hk hsome hp := by
    have hfound : (S.found log₁ (S.plain k)).isSome := by
      rw [isSome_found_plainLog hlog₁ (S.fold_plain k), isSome_found]
      exact hsome
    obtain ⟨v, hv⟩ := Option.isSome_iff_exists.mp hfound
    obtain ⟨q, hq, hpq, hrow⟩ := h.exists_row hlog₁ hlog₂ rfl rfl p
      (fun q hq hnot => by rw [row, row, hsame q hq hnot]) (List.mem_map_of_mem hk) hp
      (congrArg (Option.map _) hv)
    obtain ⟨w, hw, heq⟩ := Option.map_eq_some_iff.mp hrow
    refine ⟨q, hq, hpq, ?_⟩
    rw [hv, hw, (Prod.mk.inj (Prod.mk.inj heq).2).1]

/-- So does what is found in the other log for the keys with a row. -/
theorem unseen_extra (h : S.SpellingFree keys log extra dflt) :
    S.Unseen keys (fun k => (S.first? log k).isSome) extra fun v => v.getD dflt where
  key {k a b extra'} hk hsome hextra ha hb := by
    have hrow := congrArg (Option.map fun r => r.2.2) (h.row_eq hk hsome rfl hextra ha hb)
    obtain ⟨v, hv⟩ : ∃ v, S.found log a = some v := by
      rw [← Option.isSome_iff_exists, isSome_found, first?_congr (fold_eq_of_plain ha)]
      exact hsome
    obtain ⟨w, hw⟩ : ∃ w, S.found log b = some w := by
      rw [← Option.isSome_iff_exists, isSome_found, first?_congr (fold_eq_of_plain hb)]
      exact hsome
    rw [row, row, hv, hw] at hrow
    exact Option.some.inj hrow
  log {extra₁ extra₂} p hextra₁ hextra₂ hsame k hk hsome hp := by
    obtain ⟨v, hv⟩ : ∃ v, S.found log (S.plain k) = some v := by
      rw [← Option.isSome_iff_exists, isSome_found, first?_congr (S.fold_plain k)]
      exact hsome
    obtain ⟨q, hq, hpq, hrow⟩ := h.exists_row rfl rfl hextra₁ hextra₂ p
      (fun q hq hnot => by rw [row, row, hsame q hq hnot]) (List.mem_map_of_mem hk) hp
      (congrArg (Option.map _) hv)
    obtain ⟨w, -, heq⟩ := Option.map_eq_some_iff.mp hrow
    exact ⟨q, hq, hpq, (Prod.mk.inj (Prod.mk.inj heq).2).2.symm⟩

end SpellingFree

/-- A listing is the same in all spellings exactly if it is steady. -/
theorem rows_eq_iff {keys : List κ} {log : List (κ × ν)} {extra : List (κ × τ)} {dflt : τ} :
    S.SpellingFree keys log extra dflt ↔ S.Steady keys log extra := by
  constructor
  · intro h
    have hfold {k q : κ} (hsome : (S.first? log k).isSome) (hq : S.fold q = S.fold k) :
        (S.first? log q).isSome := first?_congr hq ▸ hsome
    refine ⟨h.once, fun k hk => ?_, fun k hk hsome => ?_⟩
    · by_cases hsome : (S.first? log k).isSome
      · exact h.unseen_log.settled (Option.some_injective ν) hk hsome (hfold hsome)
      · exact fun v w hv _ => absurd hv.isSome_first? hsome
    · exact h.unseen_extra.settled (fun _ _ => id) hk hsome (hfold hsome)
  · exact fun h _ _ _ hkeys hlog hextra => rows_eq_of_steady h hkeys hlog hextra

end Spelling

end Lib
