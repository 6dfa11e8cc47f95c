/-
Writing one file leaves the others alone.

A file that was written is read under every path that names its place (`Wrote.read?`).  A path that
does not name the place is none the wiser: the file neither ends nor opens a way to anything else,
and so what the path leads to, and whether it leads anywhere, stays as it was (`Wrote.reach_iff`,
`Wrote.read?_eq`).

That `writeText` does no more than this is `wrote_of_writeText`, and when it succeeds is
`writeText_eq_ok`.
-/
import MessageTemplate.Proofs.Disk.Paths

set_option autoImplicit false

namespace MessageTemplate

namespace Disk

/-! ## After a file was written -/

/-- A disk and what it is after a file was put at a place that has no directory: the `view` of every
other place is the same. -/
structure Wrote (d : Disk) (place : Place) (bytes : ByteArray) (d' : Disk) : Prop where
  before : d.view place ≠ .directory
  here : d'.view place = .file bytes
  elsewhere : ∀ {other : Place}, other ≠ place → d'.view other = d.view other

section

variable {d d' : Disk} {place : Place} {bytes : ByteArray}

theorem Wrote.directory_iff (h : Wrote d place bytes d') (other : Place) :
    d'.view other = .directory ↔ d.view other = .directory := by
  by_cases hother : other = place
  · subst hother
    rw [h.here]
    exact ⟨fun hview => absurd hview (View.file_ne_directory bytes),
      fun hbefore => absurd hbefore h.before⟩
  · rw [h.elsewhere hother]

theorem Wrote.nothing (h : Wrote d place bytes d') {other : Place}
    (hnothing : d'.view other = .nothing) : d.view other = .nothing := by
  by_cases hother : other = place
  · subst hother
    rw [h.here] at hnothing
    exact absurd hnothing (View.file_ne_nothing bytes)
  · rw [← h.elsewhere hother, hnothing]

/-- Names that led somewhere still lead there, by `follow_mono`: the directories are the same, and
where something was there is still something. -/
theorem Wrote.follow (h : Wrote d place bytes d') (names : List String) {start arrived : Place}
    (hfollow : d.follow start names = .ok arrived) : d'.follow start names = .ok arrived :=
  follow_mono (fun other => (h.directory_iff other).mpr)
    (fun _ hthere hnothing => hthere (h.nothing hnothing)) names hfollow

/-- `follow` led where it leads now, unless it leads to the new file.  A file has no names in it, so
there is no way through it, and only the end of a way can be the new file.  The induction is on the
names, for every start. -/
theorem Wrote.follow_back (h : Wrote d place bytes d') (names : List String) :
    ∀ {start arrived : Place}, arrived ≠ place →
      d'.follow start names = .ok arrived → d.follow start names = .ok arrived := by
  induction names with
  | nil => exact fun _ hfollow => hfollow
  | cons name rest ih =>
    intro start arrived hne hfollow
    obtain ⟨hdirectory, hstep⟩ := follow_cons_eq_ok.mp hfollow
    refine follow_cons_eq_ok.mpr ⟨(h.directory_iff start).mp hdirectory, ?_⟩
    rcases hstep with ⟨hdots, hrest⟩ | ⟨hname, hlength, hthere, hrest⟩
    · exact .inl ⟨hdots, ih hne hrest⟩
    · by_cases hplace : start ++ [name] = place
      · -- Nothing can be looked up in a file, so there are no more names.
        rw [hplace] at hrest
        cases rest with
        | nil => exact absurd (Except.ok.inj hrest).symm hne
        | cons next more =>
          have hview := (follow_cons_eq_ok.mp hrest).1
          rw [h.here] at hview
          exact absurd hview (View.file_ne_directory bytes)
      · rw [h.elsewhere hplace] at hthere
        exact .inr ⟨hname, hlength, hthere, ih hne hrest⟩

/-- Which place a path `Names` is a matter of the way to the directory above it.  A way ends at a
directory, and no directory has come or gone, so `Wrote.follow` and `Wrote.follow_back` carry the
way over. -/
theorem Wrote.names_iff (h : Wrote d place bytes d') (p : Path) (other : Place) :
    d'.Names p other ↔ d.Names p other := by
  constructor
  · rintro ⟨hvet, hdots, hslash, above, name, hlast, hlength, habove, hdirectory, rfl⟩
    have hne : above ≠ place := by
      rintro rfl
      exact h.before ((h.directory_iff above).mp hdirectory)
    exact ⟨hvet, hdots, hslash, above, name, hlast, hlength, h.follow_back _ hne habove,
      (h.directory_iff above).mp hdirectory, rfl⟩
  · rintro ⟨hvet, hdots, hslash, above, name, hlast, hlength, habove, hdirectory, rfl⟩
    exact ⟨hvet, hdots, hslash, above, name, hlast, hlength, h.follow _ habove,
      (h.directory_iff above).mpr hdirectory, rfl⟩

theorem Wrote.sameFile_iff (h : Wrote d place bytes d') (p q : Path) :
    d'.SameFile p q ↔ d.SameFile p q := by
  simp only [SameFile, h.names_iff]

theorem Wrote.view_ne_directory (h : Wrote d place bytes d') : d'.view place ≠ .directory := by
  rw [h.here]
  exact View.file_ne_directory bytes

/-- A path that does not name the new file leads (`reach`) where it led before, and if it led
nowhere it leads nowhere.  That it does not lead to the new file is `names_of_reach`: what leads to
a file names it. -/
theorem Wrote.reach_iff (h : Wrote d place bytes d') {p : Path} (hp : ¬ d.Names p place)
    {other : Place} : d'.reach p = .ok other ↔ d.reach p = .ok other := by
  constructor
  · intro hreach
    have hne : other ≠ place := by
      rintro rfl
      exact hp ((h.names_iff p other).mp (names_of_reach hreach h.view_ne_directory))
    obtain ⟨hvet, hfollow, hasks⟩ := reach_eq_ok.mp hreach
    exact reach_eq_ok.mpr ⟨hvet, h.follow_back _ hne hfollow,
      fun hends => (h.directory_iff other).mp (hasks hends)⟩
  · intro hreach
    obtain ⟨hvet, hfollow, hasks⟩ := reach_eq_ok.mp hreach
    exact reach_eq_ok.mpr ⟨hvet, h.follow _ hfollow,
      fun hends => (h.directory_iff other).mpr (hasks hends)⟩

/-- And it reads there (`read?`) what it read before: a file that is not written to keeps its text,
and a file that was not there is not made. -/
theorem Wrote.read?_eq (h : Wrote d place bytes d') {p : Path} (hp : ¬ d.Names p place) :
    d'.read? p = d.read? p := by
  by_cases hreach : ∃ other, d.reach p = .ok other
  · obtain ⟨other, hreach⟩ := hreach
    have hne : other ≠ place := by
      rintro rfl
      exact hp (names_of_reach hreach h.before)
    rw [read?_of_reach hreach, read?_of_reach ((h.reach_iff hp).mpr hreach), h.elsewhere hne]
  · rw [not_exists] at hreach
    rw [read?_of_not_reach hreach,
      read?_of_not_reach fun other hother => hreach other ((h.reach_iff hp).mp hother)]

/-- A path that `Names` the new file finds it, whether or not a file was there before; up to the
file the way is the old one. -/
theorem Wrote.reach (h : Wrote d place bytes d') {p : Path} (hp : d.Names p place) :
    d'.reach p = .ok place := by
  refine ((h.names_iff p place).mpr hp).reach_iff.mpr ⟨rfl, ?_⟩
  rw [h.here]
  exact View.file_ne_nothing bytes

theorem Wrote.bytes? (h : Wrote d place bytes d') {p : Path} (hp : d.Names p place) :
    d'.bytes? p = some bytes :=
  bytes?_of_reach (h.reach hp) h.here

/-- A path that `Names` the new file reads its text, and not only the path that it was written
under. -/
theorem Wrote.read? {s : String} (h : Wrote d place s.toUTF8 d') {p : Path}
    (hp : d.Names p place) : d'.read? p = some (.ok s) := by
  rw [read?_of_reach (h.reach hp), h.here, View.text_toUTF8]

/-! ## Writing -/

/-- A directory found by `owner` is one that the names before the last lead to.  The trail that
comes with it is `Trodden`, so its entries are those that the disk holds. -/
theorem owner_eq_ok {names : List String} {t : Trail} (h : d.owner names = .ok t) :
    d.Trodden t ∧ d.follow [] names.dropLast = .ok t.place ∧ d.view t.place = .directory := by
  have hwalk := walkFrom_eq names.dropLast (show d.Trodden [] from trivial)
  obtain ⟨t', ht, h⟩ := Outcome.bind_eq_ok.mp h
  rw [walk] at ht
  rw [ht] at hwalk
  split at h
  case isFalse => cases h
  case isTrue hdirectory =>
    obtain rfl := Except.ok.inj h
    exact ⟨hwalk.1, hwalk.2, hwalk.1.view.trans (Entry.isDirectory_iff.mp hdirectory)⟩

/-- And every such directory is found by `owner`, with a trail that ends there.  With `owner_eq_ok`
trails are left behind here, and from now on there are only `follow` and `view`. -/
theorem exists_owner {names : List String} {above : Place}
    (habove : d.follow [] names.dropLast = .ok above) (hdirectory : d.view above = .directory) :
    ∃ t, d.owner names = .ok t ∧ d.Trodden t ∧ t.place = above := by
  have hwalk := walkFrom_eq names.dropLast (show d.Trodden [] from trivial)
  cases ht : d.walkFrom [] names.dropLast with
  | error cause =>
    rw [ht] at hwalk
    exact absurd (hwalk.symm.trans habove) (Outcome.error_ne_ok cause above)
  | ok t =>
    rw [ht] at hwalk
    obtain rfl := Except.ok.inj (habove.symm.trans hwalk.2)
    rw [hwalk.1.view, ← Entry.isDirectory_iff] at hdirectory
    exact ⟨t, Outcome.bind_eq_ok.mpr ⟨t, ht, if_pos hdirectory⟩, hwalk.1, rfl⟩

/-- `look` of a name in a directory finds what the disk holds there, which may be nothing.  It
refuses a name that is too long before it looks. -/
theorem look_eq_ok {t : Trail} {name : String} {found : Option Entry} (ht : d.Trodden t)
    (hdirectory : d.view t.place = .directory) :
    d.look t name = .ok found ↔
      name.utf8ByteSize ≤ nameLimit ∧ found = d.get? (t.place ++ [name]) := by
  rw [ht.view, Entry.shown_eq_directory] at hdirectory
  obtain ⟨entries, hentries⟩ := hdirectory
  rw [look, hentries, ht.get?_below name, hentries]
  show (if name.utf8ByteSize ≤ nameLimit then Except.ok (entries.lookup name) else _) = _ ↔ _
  split
  case isTrue hlength =>
    rw [Except.ok.injEq]
    exact ⟨fun h => ⟨hlength, h.symm⟩, fun h => h.2.symm⟩
  case isFalse hlength =>
    exact ⟨fun h => absurd h (Outcome.error_ne_ok _ _), fun h => absurd h.1 hlength⟩

/-- A text is written to the place that its path names, if no directory is there.  All the refusals
of `writeText` are in the two conditions: that the path `Names` a place, and that this is no
directory. -/
theorem writeText_eq_ok {p : Path} {s : String} :
    d.writeText p s = .ok d' ↔
      ∃ place, d.Names p place ∧ d.view place ≠ .directory ∧
        d' = d.put place (.file s.toUTF8) := by
  rw [writeText, Outcome.bind_eq_ok]
  constructor
  · rintro ⟨⟨⟩, hvet, h⟩
    split at h
    case isTrue =>
      obtain ⟨_, -, h⟩ := Outcome.bind_eq_ok.mp h
      cases h
    case isFalse hdots =>
      split at h
      case h_1 => cases h
      case h_2 name hlast =>
        obtain ⟨t, howner, h⟩ := Outcome.bind_eq_ok.mp h
        obtain ⟨ht, habove, hdirectory⟩ := owner_eq_ok howner
        split at h
        case isTrue => cases h
        case isFalse hslash =>
          obtain ⟨found, hlook, h⟩ := Outcome.bind_eq_ok.mp h
          obtain ⟨hlength, rfl⟩ := (look_eq_ok ht hdirectory).mp hlook
          rw [Bool.not_eq_true] at hdots hslash
          refine ⟨t.place ++ [name], ⟨hvet, hdots, hslash, t.place, name, hlast, hlength, habove,
            hdirectory, rfl⟩, ?_⟩
          split at h
          case h_1 => cases h
          case h_2 hfound =>
            refine ⟨fun hview => ?_, (Except.ok.inj h).symm⟩
            obtain ⟨entries, hentries⟩ := view_eq_directory hview
            exact hfound entries hentries
  · rintro ⟨place, hnames, hview, rfl⟩
    obtain ⟨hvet, hdots, hslash, above, name, hlast, hlength, habove, hdirectory, rfl⟩ := hnames
    obtain ⟨t, howner, ht, rfl⟩ := exists_owner habove hdirectory
    refine ⟨(), hvet, ?_⟩
    rw [if_neg (by rw [hdots]; exact nofun), hlast]
    refine Outcome.bind_eq_ok.mpr ⟨t, howner, ?_⟩
    rw [if_neg (by rw [hslash]; exact nofun)]
    refine Outcome.bind_eq_ok.mpr ⟨_, (look_eq_ok ht hdirectory).mpr ⟨hlength, rfl⟩, ?_⟩
    split
    case h_1 entries hfound =>
      refine absurd ?_ hview
      rw [view, Entry.view, show d.root.get? _ = _ from hfound]
      rfl
    case h_2 => rfl

/-- What `writeText` does to the views, as `view_put` has it: a place that the path names has the
file, and every other view is as it was.  So all that follows from `Wrote` holds after every
success. -/
theorem wrote_of_writeText {p : Path} {s : String} (h : d.writeText p s = .ok d') :
    ∃ place, d.Names p place ∧ Wrote d place s.toUTF8 d' := by
  obtain ⟨place, hp, hbefore, rfl⟩ := writeText_eq_ok.mp h
  refine ⟨place, hp, ?_⟩
  obtain ⟨-, -, -, above, name, -, -, -, habove, rfl⟩ := hp
  refine ⟨hbefore, ?_, fun hother => ?_⟩
  · rw [view_put habove hbefore rfl, if_pos rfl]
    rfl
  · rw [view_put habove hbefore rfl, if_neg hother]

end

end Disk

end MessageTemplate
