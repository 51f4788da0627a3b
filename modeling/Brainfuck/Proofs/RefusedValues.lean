import Brainfuck.Proofs.Assignments

/-!
# Refused values

A line that assigns what does not count (to a key that is unknown, or a value that cannot be read
as what its key stands for) still is the last to assign its key until another line does. So it can
be deleted without a change unless it hides a value that counts, further up.

* `FileSettings.Counts`: the assignments that count.
* `FileSettings.bind_value?_assign`: what an assignment that does not count changes.
* `FileSettings.erase_refused_iff`: when deleting the line makes no difference.
* `FileSettings.refused_value_hides`: it can make a difference.
-/

namespace Brainfuck

namespace FileSettings

variable {s key v : List Char} {above line below : List Char} {ls : List (List Char)}

/-- Does an assignment count? It does if its key does, and its value can be read. -/
def Counts (key value : List Char) : Prop :=
  (key = tapeSizeKey ∧ (readTapeSize? value).isSome) ∨
    (key = quietKey ∧ (readSwitch? value).isSome)

theorem counts_tapeSizeKey : Counts tapeSizeKey v ↔ (readTapeSize? v).isSome := by
  have hne : tapeSizeKey ≠ quietKey := by decide
  simp [Counts, hne]

theorem counts_quietKey : Counts quietKey v ↔ (readSwitch? v).isSome := by
  have hne : quietKey ≠ tapeSizeKey := by decide
  simp [Counts, hne]

theorem isKey_of_counts (h : Counts key v) : IsKey key := h.imp And.left And.left

/-- **What an assignment changes in the reading of a key**, if its own value cannot be read: it
hides a value further up, unless a line further down assigns the key again. -/
theorem bind_value?_assign {α : Type} {r : Reader} {ls below : List (List Char)} {k : List Char}
    {read? : List Char → Option α} (hr : Tracks r ls) (hbelow : ∀ t ∈ below, isEntry t)
    (hk : IsKey k) (hv : key = k → read? v = none) :
    ((r.readOn below).value? k).bind read? =
        (((r.assign key v).readOn below).value? k).bind read? ↔
      (key = k → AssignedIn ls below k ∨ ∀ old, LastAssigned ls k old → read? old = none) := by
  have hassign : (r.assign key v).inSection = r.inSection := inSection_assign r key v
  rcases value?_readOn hbelow hr.inSection hk with ⟨hin, w, hw⟩ | ⟨hnot, hsame⟩
  · rw [hw r rfl, hw _ hassign]
    exact ⟨fun _ _ => .inl hin, fun _ => rfl⟩
  · rw [hsame r rfl, hsame _ hassign, value?_assign hk]
    by_cases hkey : key = k
    · rw [if_pos hkey, Option.bind_some, hv hkey, Option.bind_eq_none_iff]
      constructor
      · intro hold _
        exact .inr fun old hlast => hold old ((hr.value hk old).2 hlast)
      · intro hor old hlast
        exact (hor hkey).elim (fun hin => absurd hin hnot) (· old ((hr.value hk old).1 hlast))
    · rw [if_neg hkey]
      exact ⟨fun _ h => absurd h hkey, fun _ => rfl⟩

/-- **Deleting an assignment that does not count** leaves the settings as they are if and only if a
line further down assigns the key again, or what was assigned to the key last further up does not
count either. -/
theorem erase_refused_iff (h : IsLine above line below) (hline : entries line = [s])
    (hassigns : Assigns (entries above) s key v) (hrefused : ¬Counts key v) :
    ofText (above ++ below) = ofText (above ++ line ++ below) ↔
      AssignedIn (entries above) (entries below) key ∨
        ∀ old, LastAssigned (entries above) key old → ¬Counts key old := by
  have hbelow : ∀ t ∈ entries below, isEntry t := fun t => isEntry_of_mem_entries
  have htracks := tracks_readLines above
  have hwith := readLines_of_assigns h hline hassigns
  have hwithout : readLines (above ++ below) = (readLines above).readOn (entries below) := by
    rw [readLines_eq, entries_erased h, readOn_append, ← readLines_eq]
  have hfields (text : List Char) : ofText text =
      ⟨((readLines text).value? tapeSizeKey).bind readTapeSize?,
        ((readLines text).value? quietKey).bind readSwitch?⟩ := rfl
  have hsize : key = tapeSizeKey → readTapeSize? v = none := by
    rintro rfl
    rwa [counts_tapeSizeKey, Option.not_isSome_iff_eq_none] at hrefused
  have hquiet : key = quietKey → readSwitch? v = none := by
    rintro rfl
    rwa [counts_quietKey, Option.not_isSome_iff_eq_none] at hrefused
  rw [hfields, hfields, hwith, hwithout, FileSettings.mk.injEq,
    bind_value?_assign htracks hbelow (.inl rfl) hsize,
    bind_value?_assign htracks hbelow (.inr rfl) hquiet]
  by_cases hkey : IsKey key
  · have hne : tapeSizeKey ≠ quietKey := by decide
    rcases hkey with rfl | rfl
    · simp [counts_tapeSizeKey, hne]
    · simp [counts_quietKey, hne.symm]
  · obtain ⟨hnotSize, hnotQuiet⟩ := not_or.1 hkey
    have hnone : ∀ old, LastAssigned (entries above) key old → ¬Counts key old :=
      fun old _ hold => hkey (isKey_of_counts hold)
    exact ⟨fun _ => .inr hnone, fun _ => ⟨fun h => absurd h hnotSize, fun h => absurd h hnotQuiet⟩⟩

/-- A size that cannot be read, right below one that can. -/
theorem assigns_unreadable (below : List Char) :
    IsLine "[interpreter]\ntape_size = 5\n".toList "tape_size = x\n".toList below ∧
      entries "tape_size = x\n".toList = ["tape_size = x".toList] ∧
      Assigns (entries "[interpreter]\ntape_size = 5\n".toList) "tape_size = x".toList
        tapeSizeKey ['x'] ∧
      ¬Counts tapeSizeKey ['x'] := by
  refine ⟨⟨by decide, "tape_size = x".toList, by decide, .inl (by decide)⟩, by decide, ?_, ?_⟩
  · refine assigns_iff.2 ⟨⟨[], ["tape_size = 5".toList], by decide, ?_⟩, by decide, by decide⟩
    decide
  · rw [counts_tapeSizeKey]
    decide

/-- It does no harm above a size that can be read, and can be deleted. -/
theorem erase_refused_iff_of_later_value :
    let above := "[interpreter]\ntape_size = 5\n".toList
    let line := "tape_size = x\n".toList
    let below := "tape_size = 7".toList
    IsLine above line below ∧ entries line = ["tape_size = x".toList] ∧
      Assigns (entries above) "tape_size = x".toList tapeSizeKey ['x'] ∧
      ¬Counts tapeSizeKey ['x'] ∧ ofText (above ++ below) = ofText (above ++ line ++ below) := by
  intro above line below
  obtain ⟨hline, hentries, hassigns, hrefused⟩ := assigns_unreadable below
  refine ⟨hline, hentries, hassigns, hrefused, ?_⟩
  refine (erase_refused_iff hline hentries hassigns hrefused).2 (.inl ?_)
  refine ⟨[], below, [], ['7'], by decide, assigns_iff.2 ⟨?_, by decide, by decide⟩⟩
  exact ⟨[], ["tape_size = 5".toList], by decide, by decide⟩

/-- **A refused value is not as good as none**: as the last of its key, it hides the one above. -/
theorem refused_value_hides :
    ¬∀ above line below s key v, IsLine above line below → entries line = [s] →
      Assigns (entries above) s key v → ¬Counts key v →
        ofText (above ++ below) = ofText (above ++ line ++ below) := by
  intro h
  obtain ⟨hline, hentries, hassigns, hrefused⟩ := assigns_unreadable []
  have hsame := h _ _ [] _ _ _ hline hentries hassigns hrefused
  revert hsame
  decide +kernel

end FileSettings

end Brainfuck
