import Registrar.Build.Cache
import Registrar.Proofs.JsonRoundTrip

/-!
# The cache is read back

What a build remembers is read back from the text that it is kept as (`BuildCache.read?_write`), down
to the moments and paths of every entry. A dictionary is put together again from its own entries,
because they are in order (`Dict.ofList_entries`).
-/

namespace Registrar.Dict

variable {α : Type}

/-- An entry that comes after all others is put at the end. -/
theorem insertEntry_of_last {key : Text} {value : α} {entries : List (Text × α)}
    (h : ∀ e ∈ entries, e.1 < key) : insertEntry key value entries = entries ++ [(key, value)] := by
  induction entries with
  | nil => rfl
  | cons entry entries ih =>
      have hlt := h entry List.mem_cons_self
      have hnot : ¬ key < entry.1 := fun hgt => List.lt_irrefl _ (List.lt_trans hlt hgt)
      have hne : key ≠ entry.1 := fun heq => List.lt_irrefl _ (heq ▸ hlt)
      rw [insertEntry, if_neg hnot, if_neg hne, ih fun e he => h e (List.mem_cons_of_mem _ he),
        List.cons_append]

/-- Entries in order are put behind those that are there. -/
theorem entries_insertAll {d : Dict α} {entries : List (Text × α)}
    (h : (d.entries ++ entries).Pairwise fun a b => a.1 < b.1) :
    (d.insertAll entries).entries = d.entries ++ entries := by
  induction entries generalizing d with
  | nil => rw [List.append_nil]; rfl
  | cons entry entries ih =>
      have hlast : ∀ e ∈ d.entries, e.1 < entry.1 := fun e he =>
        (List.pairwise_append.mp h).2.2 e he entry List.mem_cons_self
      have hinsert : (d.insert entry.1 entry.2).entries = d.entries ++ [entry] :=
        insertEntry_of_last hlast
      have hrest := ih (d := d.insert entry.1 entry.2) (by
        rw [hinsert, List.append_assoc]
        exact h)
      rw [hinsert, List.append_assoc] at hrest
      exact hrest

/-- **A dictionary is that of its entries.** -/
theorem ofList_entries (d : Dict α) : ofList d.entries = d := by
  have hentries : (ofList d.entries).entries = d.entries := entries_insertAll d.ascending
  cases hd : ofList d.entries with
  | mk entries ascending =>
      rw [hd] at hentries
      cases d
      cases hentries
      rfl

end Registrar.Dict

namespace Registrar

open Json

theorem Json.natBelow?_ofNat {limit n : Nat} (h : n < limit) :
    natBelow? limit (Json.ofNat n) = some n := by
  show (do
    let n ← Text.digitsValue? 10 (Text.ofNat n)
    if n < limit then some n else none) = some n
  rw [Text.digitsValue?_ofNat]
  exact if_pos h

theorem Json.texts?_ofTexts (ts : List Text) : texts? (.ofTexts ts) = some ts := by
  show (ts.map string).mapM text? = some ts
  induction ts with
  | nil => rfl
  | cons t ts ih =>
      rw [List.map_cons, List.mapM_cons, ih]
      rfl

theorem Moment.ofJson?_toJson (m : Moment) : Moment.ofJson? m.toJson = some m := by
  have hsecs : natBelow? (Nat.pow 2 64) (Json.ofNat m.secs) = some m.secs :=
    natBelow?_ofNat (Nat.lt_trans m.secs_lt (by decide))
  have hnanos : natBelow? (Nat.pow 2 32) (Json.ofNat m.nanos) = some m.nanos :=
    natBelow?_ofNat (Nat.lt_trans m.nanos_lt (by decide))
  have honly : hasOnly jsonKeys m.toJson = true := rfl
  have hrecord : m.toJson.record? jsonKeys = some [Json.ofNat m.secs, Json.ofNat m.nanos] := rfl
  rw [Moment.ofJson?, if_pos honly]
  refine Option.bind_eq_some_iff.mpr ⟨_, hrecord, ?_⟩
  refine Option.bind_eq_some_iff.mpr ⟨_, hsecs, ?_⟩
  exact Option.bind_eq_some_iff.mpr ⟨_, hnanos, Moment.ofParts?_secs_nanos m⟩

theorem CacheEntry.ofJson?_toJson (e : CacheEntry) : CacheEntry.ofJson? e.toJson = some e := by
  refine Option.bind_eq_some_iff.mpr ⟨_, Moment.ofJson?_toJson e.modified, ?_⟩
  exact Option.bind_eq_some_iff.mpr ⟨_, texts?_ofTexts e.artifacts, rfl⟩

namespace BuildCache

theorem ofJson?_toJson (cache : BuildCache) : BuildCache.ofJson? cache.toJson = some cache := by
  have hentries : ∀ entries : List (Text × CacheEntry),
      (entries.map fun e => (e.1, e.2.toJson)).mapM
        (fun f => (CacheEntry.ofJson? f.2).map (f.1, ·)) = some entries := by
    intro entries
    induction entries with
    | nil => rfl
    | cons e entries ih =>
        rw [List.map_cons, List.mapM_cons, ih, CacheEntry.ofJson?_toJson]
        rfl
  show ofEntries? (.object (cache.entries.entries.map fun e => (e.1, e.2.toJson))) = some cache
  refine Option.bind_eq_some_iff.mpr ⟨_, hentries _, ?_⟩
  rw [Dict.ofList_entries]
  rfl

/-- A value with given names for its fields is read back when its values are. -/
theorem reads_zip {depth : Nat} {keys : List Text} {values : List Json}
    (h : ∀ v ∈ values, Reads depth v) : Reads (depth + 1) (.object (keys.zip values)) :=
  reads_object fun field hfield => h field.2 (List.of_mem_zip hfield).2

theorem reads_toJson (depth : Nat) (cache : BuildCache) : Reads (depth + 5) cache.toJson := by
  have hmoment : ∀ m : Moment, Reads (depth + 2) m.toJson := by
    intro m
    refine reads_zip fun v hv => ?_
    simp only [List.mem_cons, List.not_mem_nil, or_false] at hv
    rcases hv with rfl | rfl
    · exact reads_ofNat depth m.secs
    · exact reads_ofNat depth m.nanos
  have htexts : ∀ ts : List Text, Reads (depth + 2) (.ofTexts ts) := by
    intro ts
    refine reads_array fun v hv => ?_
    obtain ⟨t, -, rfl⟩ := List.mem_map.mp hv
    exact reads_string depth t
  have hentry : ∀ e : CacheEntry, Reads (depth + 3) e.toJson := by
    intro e
    refine reads_zip fun v hv => ?_
    simp only [List.mem_cons, List.not_mem_nil, or_false] at hv
    rcases hv with rfl | rfl | rfl
    · exact reads_string (depth + 1) e.hash
    · exact hmoment e.modified
    · exact htexts e.artifacts
  refine reads_object fun field hfield => ?_
  rw [List.mem_singleton] at hfield
  subst hfield
  refine reads_object fun field hfield => ?_
  obtain ⟨e, -, rfl⟩ := List.mem_map.mp hfield
  exact hentry e.2

/-- **A cache is read back from its text.** -/
theorem read?_write (cache : BuildCache) : BuildCache.read? cache.write = some cache := by
  obtain ⟨r, hr⟩ : ∃ r, cache.write = '{' :: '\n' :: ' ' :: ' ' :: r := ⟨_, rfl⟩
  have hread : Json.read? cache.write = some cache.toJson := by
    apply read?_pretty
    show Reads (cache.write.length + 1) cache.toJson
    rw [hr]
    exact reads_toJson r.length cache
  exact Option.bind_eq_some_iff.mpr ⟨_, hread, cache.ofJson?_toJson⟩

end BuildCache

end Registrar
