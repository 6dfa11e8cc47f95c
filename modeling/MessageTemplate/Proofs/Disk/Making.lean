/-
Making directories, and which files changes can reach.

Directories are made where nothing was (`Grown`).  Whatever stood anywhere stands there still, so
making directories touches no file, and a text is written to the one place that its path names.  But
a path may go into a directory that is missing and out of it again by two dots.  Such a path leads
nowhere until the directory is made, and then it may name a file that has stood there all along.  A
path without two dots leads down only, and what it names now it has named before
(`Names.isPresent`).

`Spared` collects what holds after any number of such changes: a file that is another than before is
named, now, by one of the paths that were written to.
-/
import Mathlib.Logic.Basic
import MessageTemplate.Proofs.Disk.Writing

set_option autoImplicit false

namespace MessageTemplate.Disk

/-! ## After directories were made -/

/-- A disk and what it is after directories were made: the `view` of every place is the same, but
for directories where nothing was. -/
def Grown (d d' : Disk) : Prop :=
  ∀ place, d'.view place = d.view place ∨ d.view place = .nothing ∧ d'.view place = .directory

section

variable {d d' d'' : Disk} {place : Place}

theorem Grown.refl (d : Disk) : Grown d d :=
  fun _ => .inl rfl

theorem Grown.trans (h : Grown d d') (h' : Grown d' d'') : Grown d d'' := by
  intro place
  rcases h place with hsame | ⟨hnothing, hmade⟩
  · rw [← hsame]
    exact h' place
  · rcases h' place with hsame' | ⟨hnothing', -⟩
    · exact .inr ⟨hnothing, hsame'.trans hmade⟩
    · rw [hmade] at hnothing'
      cases hnothing'

theorem Grown.kept (h : Grown d d') (hthere : d.view place ≠ .nothing) :
    d'.view place = d.view place := by
  rcases h place with hsame | ⟨hnothing, -⟩
  · exact hsame
  · exact absurd hnothing hthere

theorem Grown.directory (h : Grown d d') (hdirectory : d.view place = .directory) :
    d'.view place = .directory := by
  rw [h.kept (hdirectory.trans_ne View.directory_ne_nothing), hdirectory]

/-- A path that named a place (`Names`) still names it: the directories on the way are still
there. -/
theorem Grown.names (h : Grown d d') {p : Path} (hp : d.Names p place) : d'.Names p place := by
  obtain ⟨hvet, hdots, hslash, above, name, hlast, hlength, habove, hdirectory, rfl⟩ := hp
  have hfollow : d'.follow [] p.names.dropLast = .ok above :=
    follow_mono (fun _ => h.directory) (fun _ hthere => (h.kept hthere).trans_ne hthere) _ habove
  exact ⟨hvet, hdots, hslash, above, name, hlast, hlength, hfollow, h.directory hdirectory, rfl⟩

/-! ## Making directories -/

/-- `makeDirectory` makes one directory in the directory that owns it, and only where nothing
was. -/
theorem grown_of_makeDirectory {names : List String} (h : d.makeDirectory names = .ok d') :
    Grown d d' := by
  obtain ⟨t, howner, h⟩ := Outcome.bind_eq_ok.mp h
  obtain ⟨ht, -, hdirectory⟩ := owner_eq_ok howner
  split at h
  case h_1 => cases h
  case h_2 name _ =>
    split at h
    case isTrue => cases h
    case isFalse =>
      obtain ⟨found, hlook, h⟩ := Outcome.bind_eq_ok.mp h
      obtain ⟨-, rfl⟩ := (look_eq_ok ht hdirectory).mp hlook
      split at h
      case h_1 => cases h
      case h_2 hfound =>
        obtain rfl := Except.ok.inj h
        have hnothing : d.view (t.place ++ [name]) = .nothing := view_eq_nothing.mpr hfound
        have hnone : d.view (t.place ++ [name]) ≠ .directory :=
          hnothing.trans_ne View.directory_ne_nothing.symm
        intro place
        rw [view_put hdirectory hnone rfl]
        by_cases hplace : place = t.place ++ [name]
        · rw [if_pos hplace, hplace]
          exact .inr ⟨hnothing, rfl⟩
        · exact .inl (if_neg hplace)

/-- `makeDirectories` by induction on the directories above that are still to be tried.  A directory
is tried, those above it are made if it could not be, and it is tried again; whatever of this
succeeds only adds directories. -/
theorem grown_of_makeDirectories (above : Nat) : ∀ {names : List String} {d d' : Disk},
    d.makeDirectories names above = .ok d' → Grown d d' := by
  induction above with
  | zero =>
    intro _ _ _ h
    obtain rfl := Except.ok.inj h
    exact .refl _
  | succ above ih =>
    intro names d d' h
    rw [makeDirectories] at h
    split at h
    case h_1 hmade =>
      obtain rfl := Except.ok.inj h
      exact grown_of_makeDirectory hmade
    case h_2 =>
      -- The directory above is missing.  It is made, and then this one is tried again.
      split at h
      case h_1 => cases h
      case h_2 habove =>
        split at h
        case h_1 hmade =>
          obtain rfl := Except.ok.inj h
          exact (ih habove).trans (grown_of_makeDirectory hmade)
        case h_2 =>
          split at h
          case isFalse => cases h
          case isTrue =>
            obtain rfl := Except.ok.inj h
            exact ih habove
    case h_3 =>
      -- Any other refusal is forgiven if there is a directory already, and nothing was made.
      split at h
      case isFalse => cases h
      case isTrue =>
        obtain rfl := Except.ok.inj h
        exact .refl _

/-- `makeParent` makes the directory for a file together with those above it. -/
theorem grown_of_makeParent {p : Path} (h : d.makeParent p = .ok d') : Grown d d' := by
  obtain ⟨_, -, h⟩ := Outcome.bind_eq_ok.mp h
  exact grown_of_makeDirectories _ h

end

/-! ## Paths that lead down -/

section

variable {d d' : Disk} {p : Path} {place : Place}

/-- `follow` along names without two dots leads where they say, if it leads anywhere. -/
theorem follow_plain {names : List String} (hplain : ".." ∉ names) :
    ∀ {start arrived : Place}, d.follow start names = .ok arrived →
      arrived = start ++ names ∧ ∀ name ∈ names, name.utf8ByteSize ≤ nameLimit := by
  induction names with
  | nil =>
    intro start arrived h
    exact ⟨(Except.ok.inj h).symm.trans (List.append_nil start).symm, List.forall_mem_nil _⟩
  | cons name rest ih =>
    intro start arrived h
    rw [List.mem_cons, not_or] at hplain
    rcases (follow_cons_eq_ok.mp h).2 with ⟨hdots, -⟩ | ⟨-, hlength, -, hrest⟩
    · exact absurd hdots.symm hplain.1
    · obtain ⟨rfl, hlengths⟩ := ih hplain.2 hrest
      rw [List.append_assoc, List.singleton_append]
      exact ⟨rfl, List.forall_mem_cons.mpr ⟨hlength, hlengths⟩⟩

/-- And it leads there, if something is there.  The induction is on the names: what stands at the
end stands below a directory at every step. -/
theorem follow_of_view {names : List String} (hplain : ".." ∉ names)
    (hlengths : ∀ name ∈ names, name.utf8ByteSize ≤ nameLimit) :
    ∀ {start : Place}, d.view (start ++ names) ≠ .nothing →
      d.follow start names = .ok (start ++ names) := by
  induction names with
  | nil =>
    intro start _
    rw [List.append_nil]
    rfl
  | cons name rest ih =>
    intro start hthere
    rw [List.mem_cons, not_or] at hplain
    obtain ⟨hlength, hrest⟩ := List.forall_mem_cons.mp hlengths
    have hsplit : start ++ name :: rest = start ++ [name] ++ rest := by
      rw [List.append_assoc, List.singleton_append]
    have hdirectory : d.view start = .directory := Entry.view_above hthere
    have hbelow : d.view (start ++ [name]) ≠ .nothing := by
      cases rest with
      | nil => exact hthere
      | cons next more =>
        -- Something stands below it, so it is a directory.
        rw [hsplit] at hthere
        have hview : d.view (start ++ [name]) = .directory := Entry.view_above hthere
        exact hview.trans_ne View.directory_ne_nothing
    rw [hsplit] at hthere ⊢
    exact follow_cons_eq_ok.mpr
      ⟨hdirectory, .inr ⟨Ne.symm hplain.1, hlength, hbelow, ih hplain.2 hrest hthere⟩⟩

/-- What a path without two dots `Names` on one disk, it leads to on every disk that has something
there. -/
theorem Names.isPresent (hp : d'.Names p place) (hplain : ".." ∉ p.names)
    (hthere : d.view place ≠ .nothing) : d.isPresent p = true := by
  obtain ⟨hvet, hdots, hslash, above, name, hlast, hlength, habove, -, rfl⟩ := hp
  obtain ⟨before, hbefore⟩ := List.getLast?_eq_some_iff.mp hlast
  rw [hbefore, List.dropLast_concat] at habove
  rw [hbefore, List.mem_append, not_or] at hplain
  -- The names alone say which place it is, and so it is the same on both disks.
  obtain ⟨heq, hlengths⟩ := follow_plain hplain.1 habove
  rw [heq, List.nil_append] at hthere
  have hfollow : d.follow [] (before ++ [name]) = .ok (before ++ [name]) := by
    refine follow_of_view ?_ ?_ hthere
    · rw [List.mem_append, not_or]
      exact hplain
    · exact List.forall_mem_append.mpr ⟨hlengths, List.forall_mem_singleton.mpr hlength⟩
  refine isPresent_iff.mpr ⟨before ++ [name], reach_eq_ok.mpr ⟨hvet, hbefore ▸ hfollow, ?_⟩⟩
  rw [hdots, hslash]
  exact nofun

end

/-! ## Files that are left alone -/

/-- A disk and what it is after some changes: no file is another than before, unless one of the
`paths` names it now. -/
def Spared (paths : List Path) (d d' : Disk) : Prop :=
  ∀ place bytes, d.view place = .file bytes →
    d'.view place = .file bytes ∨ ∃ p ∈ paths, d'.Names p place

section

variable {paths : List Path} {d d' d'' : Disk} {p : Path}

theorem Spared.refl (paths : List Path) (d : Disk) : Spared paths d d :=
  fun _ _ hview => .inl hview

/-- `makeParent` spares every file, and the paths still name what they named. -/
theorem Spared.makeParent (h : Spared paths d d') (hmake : d'.makeParent p = .ok d'') :
    Spared paths d d'' := by
  have hgrown := grown_of_makeParent hmake
  intro place bytes hview
  rcases h place bytes hview with hsame | ⟨q, hq, hnames⟩
  · have hthere : d'.view place ≠ .nothing := hsame.trans_ne (View.file_ne_nothing bytes)
    exact .inl ((hgrown.kept hthere).trans hsame)
  · exact .inr ⟨q, hq, hgrown.names hnames⟩

/-- `writeText` spares every file but the one that is written, and its path is one of the
`paths`. -/
theorem Spared.writeText (h : Spared paths d d') (hp : p ∈ paths) {s : String}
    (hwrite : d'.writeText p s = .ok d'') : Spared paths d d'' := by
  obtain ⟨place', hnames', hwrote⟩ := wrote_of_writeText hwrite
  intro place bytes hview
  rcases h place bytes hview with hsame | ⟨q, hq, hnames⟩
  · by_cases hplace : place = place'
    · subst hplace
      exact .inr ⟨p, hp, (hwrote.names_iff p place).mpr hnames'⟩
    · exact .inl ((hwrote.elsewhere hplace).trans hsame)
  · exact .inr ⟨q, hq, (hwrote.names_iff q place).mpr hnames⟩

end

end MessageTemplate.Disk
