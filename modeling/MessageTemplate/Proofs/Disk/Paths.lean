/-
Where a path leads.

Following a path is following its names from the top, with a look at how the path ends:
`Disk.reach`.  Paths can be spelled in many ways, and two of them may name one file.  A path names a
place (`Disk.Names`) if it leads to a directory and then gives a name in it, whether something
stands there or not; this is all that writing needs.  What a path leads to, if that is no directory,
stands at the place that the path names (`Disk.names_of_reach`), so two paths of one place read the
same (`Disk.SameFile.read?_eq`).
-/
import MessageTemplate.Proofs.Disk.Places

set_option autoImplicit false

namespace MessageTemplate

/-- A path whose last name is two dots ends in dots, whatever follows the name.  What can follow it
are empty names and single dots, which `names` leaves out. -/
theorem Path.getLast?_names_ne_dots {p : Path} (h : p.endsInDots = false) :
    p.names.getLast? ≠ some ".." := by
  have hpieces : ∀ pieces : List String,
      (pieces.filter fun s => !isSilent s).head? = some ".." →
      (pieces.dropWhile (· = "")).head? = some "." ∨
        (pieces.dropWhile (· = "")).head? = some ".." := by
    intro pieces
    induction pieces with
    | nil => exact nofun
    | cons piece rest ih =>
      intro hhead
      by_cases hempty : piece = ""
      · subst hempty
        rw [List.dropWhile_cons_of_pos (by simp)]
        exact ih hhead
      · rw [List.dropWhile_cons_of_neg (by simpa using hempty), List.head?_cons]
        by_cases hdot : piece = "."
        · exact .inl (congrArg some hdot)
        · rw [List.filter_cons_of_pos (by simp [isSilent, hempty, hdot])] at hhead
          exact .inr hhead
  intro hlast
  rw [← List.head?_reverse, names, ← List.filter_reverse] at hlast
  rw [endsInDots] at h
  rcases hpieces _ hlast with hdots | hdots
  · simp [hdots] at h
  · simp [hdots] at h

/-- What reading finds at the end of a path with this `View`. -/
def View.text : View → Except FileError String
  | .file bytes =>
    match String.fromUTF8? bytes with
    | some s => .ok s
    | none => .error .notText
  | _ => .error .isDirectory

theorem View.text_toUTF8 (s : String) : (View.file s.toUTF8).text = .ok s := by
  have hread : String.fromUTF8? s.toUTF8 = some s := by
    rw [String.fromUTF8?, String.toUTF8_eq_toByteArray, dif_pos s.isValidUTF8]
    rfl
  rw [text, hread]

/-- The test of `find` on the entry that was arrived at, as one on what is shown. -/
theorem Entry.not_isDirectory (e : Entry) : (!e.isDirectory) = decide (e.shown ≠ .directory) := by
  cases e with
  | file bytes => rfl
  | directory entries => rfl

namespace Disk

/-! ## Where a path leads -/

/-- The `Place` that a path leads to. -/
def reach (d : Disk) (p : Path) : Except FileError Place := do
  p.vet
  let place ← d.follow [] p.names
  if (p.endsInSlash || p.endsInDots) && d.view place ≠ .directory then .error .notDirectory
  else .ok place

section

variable {d : Disk} {p : Path} {place : Place}

/-- `find` gives a way to the place that is reached, and it is refused for the same cause. -/
theorem find_eq (d : Disk) (p : Path) :
    match d.find p with
    | .ok t => d.Trodden t ∧ d.reach p = .ok t.place
    | .error cause => d.reach p = .error cause := by
  rw [find, reach]
  cases p.vet with
  | error cause => rfl
  | ok _ =>
    have hwalk := walkFrom_eq p.names (show d.Trodden [] from trivial)
    dsimp only [bind, Except.bind]
    rw [walk]
    cases ht : d.walkFrom [] p.names with
    | error cause =>
      rw [ht] at hwalk
      have hfollow : d.follow [] p.names = .error cause := hwalk
      rw [hfollow]
    | ok t =>
      rw [ht] at hwalk
      have hfollow : d.follow [] p.names = .ok t.place := hwalk.2
      rw [hfollow]
      dsimp only
      rw [hwalk.1.view, Entry.not_isDirectory]
      by_cases hrefused : ((p.endsInSlash || p.endsInDots) &&
          decide ((d.arrived t).shown ≠ .directory)) = true
      · rw [if_pos hrefused]
        exact if_pos hrefused
      · rw [if_neg hrefused]
        exact ⟨hwalk.1, if_neg hrefused⟩

/-- What `find` has arrived at is what can be seen at the place. -/
theorem exists_find_of_reach (h : d.reach p = .ok place) :
    ∃ t, d.find p = .ok t ∧ d.view place = (d.arrived t).shown := by
  have hfind := find_eq d p
  cases ht : d.find p with
  | error cause =>
    rw [ht] at hfind
    exact absurd (hfind.symm.trans h) (Outcome.error_ne_ok cause place)
  | ok t =>
    rw [ht] at hfind
    obtain rfl := Except.ok.inj (h.symm.trans hfind.2)
    exact ⟨t, rfl, hfind.1.view⟩

theorem isPresent_iff : d.isPresent p = true ↔ ∃ place, d.reach p = .ok place := by
  constructor
  · intro h
    have hfind := find_eq d p
    rw [isPresent] at h
    cases ht : d.find p with
    | error cause =>
      rw [ht] at h
      cases h
    | ok t =>
      rw [ht] at hfind
      exact ⟨t.place, hfind.2⟩
  · rintro ⟨place, hreach⟩
    obtain ⟨t, ht, -⟩ := exists_find_of_reach hreach
    rw [isPresent, ht]

/-- What `readText` gives for the path, if the path leads anywhere. -/
def read? (d : Disk) (p : Path) : Option (Except FileError String) :=
  if d.isPresent p then some (d.readText p) else none

/-- Reading looks at the `view` of the place alone. -/
theorem read?_of_reach (h : d.reach p = .ok place) : d.read? p = some (d.view place).text := by
  obtain ⟨t, ht, hview⟩ := exists_find_of_reach h
  have hread : d.readText p = (d.arrived t).shown.text := by
    rw [readText, ht]
    dsimp only [bind, Except.bind]
    cases d.arrived t with
    | directory entries => rfl
    | file bytes => rfl
  rw [read?, if_pos (isPresent_iff.mpr ⟨place, h⟩), hread, hview]

theorem read?_of_not_reach (h : ∀ place, d.reach p ≠ .ok place) : d.read? p = none :=
  if_neg fun hpresent =>
    have ⟨place, hplace⟩ := isPresent_iff.mp hpresent
    h place hplace

/-- The bytes of the `file` that a path leads to. -/
def bytes? (d : Disk) (p : Path) : Option ByteArray :=
  match d.find p with
  | .error _ => none
  | .ok t =>
    match d.arrived t with
    | .directory _ => none
    | .file bytes => some bytes

theorem bytes?_of_reach {bytes : ByteArray} (h : d.reach p = .ok place)
    (hview : d.view place = .file bytes) : d.bytes? p = some bytes := by
  obtain ⟨t, ht, hshown⟩ := exists_find_of_reach h
  rw [hview] at hshown
  rw [bytes?, ht]
  dsimp only
  cases harrived : d.arrived t with
  | directory entries =>
    rw [harrived] at hshown
    cases hshown
  | file bytes' =>
    rw [harrived] at hshown
    rw [View.file.inj hshown]

end

/-! ## Paths of files -/

/-- A `Path` that names a place: it asks for no directory, its last name is short enough, and the
names before it lead to the directory that the place is in. -/
structure Names (d : Disk) (p : Path) (place : Place) : Prop where
  vetted : p.vet = .ok ()
  noDots : p.endsInDots = false
  noSlash : p.endsInSlash = false
  placed : ∃ above name, p.names.getLast? = some name ∧ name.utf8ByteSize ≤ nameLimit ∧
    d.follow [] p.names.dropLast = .ok above ∧ d.view above = .directory ∧
      place = above ++ [name]

/-- Two paths of one file: they are spelled the same or name the same place (`Names`). -/
def SameFile (d : Disk) (p q : Path) : Prop :=
  p = q ∨ ∃ place, d.Names p place ∧ d.Names q place

section

variable {d : Disk} {p : Path} {place : Place}

theorem follow_append (names names' : List String) : ∀ place : Place,
    d.follow place (names ++ names') =
      (d.follow place names).bind fun above => d.follow above names' := by
  induction names with
  | nil => exact fun _ => rfl
  | cons name rest ih =>
    intro place
    rw [List.cons_append, follow, follow, ih, ih]
    split
    case isFalse => rfl
    case isTrue =>
      split
      case isTrue => rfl
      case isFalse =>
        split
        case isFalse => rfl
        case isTrue =>
          split
          case isTrue => rfl
          case isFalse => rfl

/-- Where `follow` leads along names that end in a name of their own: they lead to a directory, and
the last one stands for something there. -/
theorem follow_concat {names : List String} {name : String} (hname : name ≠ "..") :
    d.follow [] (names ++ [name]) = .ok place ↔
      ∃ above, d.follow [] names = .ok above ∧ d.view above = .directory ∧
        name.utf8ByteSize ≤ nameLimit ∧ d.view (above ++ [name]) ≠ .nothing ∧
          place = above ++ [name] := by
  rw [follow_append]
  cases d.follow [] names with
  | error cause =>
    constructor
    · intro h
      cases h
    · rintro ⟨_, h, -⟩
      cases h
  | ok above =>
    show d.follow above [name] = .ok place ↔ _
    rw [follow_cons_eq_ok]
    constructor
    · rintro ⟨hdirectory, ⟨hdots, -⟩ | ⟨-, hlength, hthere, h⟩⟩
      · exact absurd hdots hname
      · exact ⟨above, rfl, hdirectory, hlength, hthere, (Except.ok.inj h).symm⟩
    · rintro ⟨above', habove, hdirectory, hlength, hthere, rfl⟩
      obtain rfl := Except.ok.inj habove
      exact ⟨hdirectory, .inr ⟨hname, hlength, hthere, rfl⟩⟩

/-- `reach` succeeds if something is there: the names lead to it, and it is a directory if the
path's end asks for one. -/
theorem reach_eq_ok :
    d.reach p = .ok place ↔
      p.vet = .ok () ∧ d.follow [] p.names = .ok place ∧
        ((p.endsInSlash || p.endsInDots) = true → d.view place = .directory) := by
  rw [reach, Outcome.bind_eq_ok]
  constructor
  · rintro ⟨⟨⟩, hvet, h⟩
    obtain ⟨arrived, hfollow, h⟩ := Outcome.bind_eq_ok.mp h
    split at h
    case isTrue => cases h
    case isFalse hasks =>
      obtain rfl := Except.ok.inj h
      exact ⟨hvet, hfollow, fun hends => by simpa [hends] using hasks⟩
  · rintro ⟨hvet, hfollow, hends⟩
    refine ⟨(), hvet, Outcome.bind_eq_ok.mpr ⟨place, hfollow, if_neg ?_⟩⟩
    intro hasks
    rw [Bool.and_eq_true, decide_eq_true_eq] at hasks
    exact hasks.2 (hends hasks.1)

/-- A path that `Names` a place leads there if anything is there, and nowhere else. -/
theorem Names.reach_iff (h : d.Names p place) {other : Place} :
    d.reach p = .ok other ↔ other = place ∧ d.view place ≠ .nothing := by
  obtain ⟨hvet, hdots, hslash, above, name, hlast, hlength, habove, hdirectory, rfl⟩ := h
  obtain ⟨before, hbefore⟩ := List.getLast?_eq_some_iff.mp hlast
  rw [hbefore, List.dropLast_concat] at habove
  have hname : name ≠ ".." := by
    rintro rfl
    exact Path.getLast?_names_ne_dots hdots hlast
  rw [reach_eq_ok, hbefore, follow_concat hname, hdots, hslash]
  constructor
  · rintro ⟨-, ⟨above', habove', -, -, hthere, rfl⟩, -⟩
    obtain rfl := Except.ok.inj (habove'.symm.trans habove)
    exact ⟨rfl, hthere⟩
  · rintro ⟨rfl, hthere⟩
    exact ⟨hvet, ⟨above, habove, hdirectory, hlength, hthere, rfl⟩, nofun⟩

/-- A path that leads to anything but a directory `Names` its place.  Its last name is no two dots,
so the names before it lead to the directory above. -/
theorem names_of_reach (h : d.reach p = .ok place) (hview : d.view place ≠ .directory) :
    d.Names p place := by
  obtain ⟨hvet, hfollow, hasks⟩ := reach_eq_ok.mp h
  have hends : p.endsInSlash = false ∧ p.endsInDots = false := by
    rw [← Bool.or_eq_false_iff, ← Bool.not_eq_true]
    exact fun hends => hview (hasks hends)
  cases hlast : p.names.getLast? with
  | none =>
    -- Without any names the path leads to the top.
    rw [List.getLast?_eq_none_iff.mp hlast] at hfollow
    obtain rfl := Except.ok.inj hfollow
    exact absurd d.view_top hview
  | some name =>
    obtain ⟨before, hbefore⟩ := List.getLast?_eq_some_iff.mp hlast
    have hname : name ≠ ".." := by
      rintro rfl
      exact Path.getLast?_names_ne_dots hends.2 hlast
    rw [hbefore, follow_concat hname] at hfollow
    obtain ⟨above, habove, hdirectory, hlength, -, rfl⟩ := hfollow
    refine ⟨hvet, hends.2, hends.1, above, name, hlast, hlength, ?_, hdirectory, rfl⟩
    rw [hbefore, List.dropLast_concat]
    exact habove

/-- A path with one name `Names` a place at the top, whatever is on the disk. -/
theorem names_top {name : String}
    (h : (p.hasNul = false ∧ p.text.utf8ByteSize < pathLimit) ∧ p.endsInDots = false ∧
      p.endsInSlash = false ∧ p.names = [name] ∧ name.utf8ByteSize ≤ nameLimit) :
    d.Names p [name] := by
  obtain ⟨⟨hnul, hsize⟩, hdots, hslash, hnames, hlength⟩ := h
  have hvet : p.vet = .ok () := by
    rw [Path.vet, hnul, if_neg Bool.false_ne_true, if_pos hsize]
  refine ⟨hvet, hdots, hslash, [], name, ?_, hlength, ?_, d.view_top, rfl⟩
  · rw [hnames, List.getLast?_singleton]
  · rw [hnames]
    rfl

theorem Names.inj {place' : Place} (h : d.Names p place) (h' : d.Names p place') :
    place = place' := by
  obtain ⟨-, -, -, above, name, hlast, -, habove, -, rfl⟩ := h
  obtain ⟨-, -, -, above', name', hlast', -, habove', -, rfl⟩ := h'
  rw [Except.ok.inj (habove.symm.trans habove'), Option.some.inj (hlast.symm.trans hlast')]

/-- What is read under a path that `Names` a place. -/
theorem Names.read? (h : d.Names p place) :
    d.read? p = if d.view place = .nothing then none else some (d.view place).text := by
  split
  case isTrue hnothing =>
    exact read?_of_not_reach fun other hreach => (h.reach_iff.mp hreach).2 hnothing
  case isFalse hthere => exact read?_of_reach (h.reach_iff.mpr ⟨rfl, hthere⟩)

theorem SameFile.symm {q : Path} (h : d.SameFile p q) : d.SameFile q p :=
  h.imp Eq.symm fun ⟨place, hp, hq⟩ => ⟨place, hq, hp⟩

/-- If one of two paths of one file (`SameFile`) names a place, so does the other. -/
theorem SameFile.names {q : Path} (h : d.SameFile p q) (hp : d.Names p place) :
    d.Names q place := by
  rcases h with rfl | ⟨place', hp', hq⟩
  · exact hp
  · exact hp.inj hp' ▸ hq

theorem Names.not_sameFile {q : Path} {place' : Place} (hp : d.Names p place)
    (hq : d.Names q place') (hne : place ≠ place') : ¬ d.SameFile p q :=
  fun hsame => hne ((hsame.names hp).inj hq)

/-- Two paths of one file (`SameFile`) read the same. -/
theorem SameFile.read?_eq {q : Path} (h : d.SameFile p q) : d.read? q = d.read? p := by
  rcases h with rfl | ⟨place, hp, hq⟩
  · rfl
  · rw [hp.read?, hq.read?]

end

end Disk

end MessageTemplate
