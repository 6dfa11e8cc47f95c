/-
What a disk shows of its places.

A disk is a tree, but who follows a path sees little of it: whether a place holds nothing, a
directory or a file, and of a file its bytes.  This is the `View` of the place.  The entries that
are carried along a way are only those that the disk holds at the places on it (`Disk.Trodden`), so
where names lead is a function of the views, `Disk.follow`, and by `Disk.walkFrom_eq` it is where
`Disk.walkFrom` leads.

An operation on a disk is then described when it is said which views it changes.  Putting a file or
an empty directory into a directory changes the view of its place and no other (`Disk.view_put`).
-/
import MessageTemplate.Disk.Basic
import MessageTemplate.Proofs.Outcome

set_option autoImplicit false

namespace MessageTemplate

/-- What can be seen of a `Place`.  Of a directory nothing is shown but that it is one; its entries
are views of places below. -/
inductive View where
  | nothing
  | directory
  | file (bytes : ByteArray)

namespace View

theorem file_ne_directory (bytes : ByteArray) : View.file bytes ≠ .directory := nofun

theorem file_ne_nothing (bytes : ByteArray) : View.file bytes ≠ .nothing := nofun

theorem directory_ne_nothing : View.directory ≠ .nothing := nofun

instance (v : View) : Decidable (v = .nothing) :=
  match v with
  | .nothing => isTrue rfl
  | .directory => isFalse nofun
  | .file bytes => isFalse (file_ne_nothing bytes)

instance (v : View) : Decidable (v = .directory) :=
  match v with
  | .nothing => isFalse nofun
  | .directory => isTrue rfl
  | .file bytes => isFalse (file_ne_directory bytes)

end View

namespace Entry

/-- An `Entry` as it is seen from above.  The entries of a directory are left out, as each is a view
of its own, of the place below. -/
def shown : Entry → View
  | .file bytes => .file bytes
  | .directory _ => .directory

/-- The `View` of a place below an entry. -/
def view (e : Entry) (place : Place) : View :=
  match e.get? place with
  | some below => below.shown
  | none => .nothing

/-! ## Views and entries -/

theorem view_nil (e : Entry) : e.view [] = e.shown := by
  rw [view, get?]

/-- One name further: the view of a place is the view of the rest of it below the entry that the
first name stands for.  Proofs by induction on a place go by this. -/
theorem view_cons (e : Entry) (name : String) (rest : Place) :
    e.view (name :: rest) =
      match e.entries.lookup name with
      | some below => below.view rest
      | none => .nothing := by
  rw [view, get?]
  cases e.entries.lookup name with
  | none => rfl
  | some below => rfl

theorem shown_eq_directory {e : Entry} :
    e.shown = .directory ↔ ∃ entries, e = .directory entries := by
  cases e with
  | file bytes => exact ⟨nofun, nofun⟩
  | directory entries => exact ⟨fun _ => ⟨entries, rfl⟩, fun _ => rfl⟩

/-- `isDirectory`, which the operations ask, in terms of what is shown.  The operations look at
entries and the lemmas speak of views, and this leads from the one to the other. -/
theorem isDirectory_iff {e : Entry} : e.isDirectory = true ↔ e.shown = .directory := by
  cases e with
  | file bytes => exact ⟨nofun, nofun⟩
  | directory entries => exact ⟨fun _ => rfl, fun _ => rfl⟩

/-- `get?` may go to a place in two stretches.  The induction is on the first one. -/
theorem get?_append (place rest : Place) : ∀ e : Entry,
    e.get? (place ++ rest) = (e.get? place).bind fun below => below.get? rest := by
  induction place with
  | nil =>
    intro e
    rw [List.nil_append, get?, Option.bind_some]
  | cons first more ih =>
    intro e
    rw [List.cons_append, get?, get?]
    cases e.entries.lookup first with
    | none => rfl
    | some below => exact ih below

theorem get?_concat (name : String) (place : Place) (e : Entry) :
    e.get? (place ++ [name]) = (e.get? place).bind fun below => below.entries.lookup name := by
  rw [get?_append]
  refine congrArg (e.get? place).bind (funext fun below => ?_)
  rw [get?]
  cases below.entries.lookup name with
  | none => rfl
  | some e => exact get?.eq_1 e

/-- What stands below a place stands in a directory: a `file` holds nothing. -/
theorem view_above {e : Entry} {place : Place} {name : String} {rest : Place}
    (h : e.view (place ++ name :: rest) ≠ .nothing) : e.view place = .directory := by
  rw [view, get?_append] at h
  rw [view]
  cases hplace : e.get? place with
  | none =>
    rw [hplace] at h
    exact absurd rfl h
  | some below =>
    cases below with
    | directory entries => rfl
    | file bytes =>
      rw [hplace] at h
      exact absurd rfl h

/-! ## Putting something into a directory -/

/-- `List.lookup` with the test on names as an equality. -/
theorem lookup_cons (name : String) (e : Entry) (rest : List (String × Entry)) (other : String) :
    ((name, e) :: rest).lookup other = if other = name then some e else rest.lookup other := by
  rw [List.lookup_cons]
  by_cases h : other = name
  · rw [if_pos h, beq_iff_eq.mpr h]
  · rw [if_neg h, beq_false_of_ne h]

/-- `bindName` gives a name another entry and leaves what the other names stand for, also when the
name was bound before.  The old binding is filtered out and the new one is put at the end, so what
is looked up does not show where it is. -/
theorem lookup_bindName (entries : List (String × Entry)) (name : String) (e : Entry)
    (other : String) :
    (bindName entries name e).lookup other =
      if other = name then some e else entries.lookup other := by
  rw [bindName, List.lookup_append]
  induction entries with
  | nil => rw [List.filter_nil, List.lookup_nil, Option.none_or, lookup_cons, List.lookup_nil]
  | cons first rest ih =>
    obtain ⟨key, old⟩ := first
    by_cases hkey : key = name
    · subst hkey
      rw [List.filter_cons_of_neg (by simp), ih, lookup_cons]
      by_cases h : other = key
      · rw [if_pos h, if_pos h]
      · rw [if_neg h, if_neg h, if_neg h]
    · rw [List.filter_cons_of_pos (by simpa using hkey), lookup_cons key, lookup_cons key]
      by_cases h : other = key
      · subst h
        rw [if_pos rfl, if_pos rfl, if_neg hkey, Option.some_or]
      · rw [if_neg h, if_neg h]
        exact ih

/-- `view_cons` for a directory whose entries are known. -/
theorem view_directory_cons (entries : List (String × Entry)) (name : String) (rest : Place) :
    (Entry.directory entries).view (name :: rest) =
      match entries.lookup name with
      | some below => below.view rest
      | none => .nothing :=
  view_cons (.directory entries) name rest

/-- `put` below a directory.  Where this has no directory of its own with a name, something that
holds nothing can be put there, and nothing else changes.  The induction is on the way to the
directory. -/
theorem view_put {new : Entry} (hnew : new.entries = []) (name : String) (above : Place) :
    ∀ {e : Entry}, e.view above = .directory → e.view (above ++ [name]) ≠ .directory →
      ∀ place : Place, (put new e (above ++ [name])).view place =
        if place = above ++ [name] then new.shown else e.view place := by
  induction above with
  | nil =>
    intro e habove hname place
    rw [view_nil] at habove
    obtain ⟨entries, rfl⟩ := shown_eq_directory.mp habove
    rw [List.nil_append, view_directory_cons] at hname
    rw [List.nil_append, put, put]
    cases place with
    | nil => rfl
    | cons first rest =>
      rw [view_directory_cons, lookup_bindName, view_directory_cons]
      by_cases hfirst : first = name
      · subst hfirst
        rw [if_pos rfl]
        cases rest with
        | nil => rw [if_pos rfl]; exact view_nil new
        | cons next more =>
          -- There is nothing below what is put, and nothing was below what it stands for.
          have hbelow : new.view (next :: more) = .nothing := by
            rw [view_cons, hnew]
            rfl
          rw [if_neg (by simp)]
          cases hold : entries.lookup first with
          | none => exact hbelow
          | some old =>
            cases old with
            | file _ => exact hbelow
            | directory _ =>
              rw [hold] at hname
              exact absurd rfl hname
      · rw [if_neg hfirst, if_neg (by simp [hfirst])]
  | cons step rest ih =>
    intro e habove hname place
    cases e with
    | file _ => cases habove
    | directory entries =>
      rw [view_directory_cons] at habove
      rw [List.cons_append, view_directory_cons] at hname
      cases hstep : entries.lookup step with
      | none =>
        rw [hstep] at habove
        cases habove
      | some below =>
        rw [hstep] at habove hname
        rw [List.cons_append, put, hstep, Option.getD_some]
        cases place with
        | nil => rfl
        | cons first more =>
          rw [view_directory_cons, view_directory_cons, lookup_bindName]
          by_cases hfirst : first = step
          · subst hfirst
            rw [if_pos rfl, hstep]
            show (put new below (rest ++ [name])).view more = _
            rw [ih habove hname]
            simp
          · rw [if_neg hfirst, if_neg (by simp [hfirst])]

end Entry

namespace Disk

/-- The `View` of a place of a disk. -/
def view (d : Disk) (place : Place) : View := d.root.view place

/-- The top of a disk is a directory, so every way that starts there has a first step. -/
theorem view_top (d : Disk) : d.view [] = .directory := by
  rw [view, Entry.view_nil]
  rfl

/-- `put` of a file or an empty directory into a directory, or anew where a file is, changes the
view there only. -/
theorem view_put {d : Disk} {above : Place} {name : String} (habove : d.view above = .directory)
    (hname : d.view (above ++ [name]) ≠ .directory) {new : Entry} (hnew : new.entries = [])
    (place : Place) :
    (d.put (above ++ [name]) new).view place =
      if place = above ++ [name] then new.shown else d.view place := by
  have hroot : (d.put (above ++ [name]) new).root = Entry.put new d.root (above ++ [name]) := by
    cases above with
    | nil => rfl
    | cons first rest => rfl
  rw [view, hroot, Entry.view_put hnew name above habove hname]
  rfl

/-! ## Following names -/

/-- Goes on from a place, name by name.  This is `walkFrom` without the entries on the way, and it
looks at the disk through `view` alone. -/
def follow (d : Disk) : Place → List String → Except FileError Place
  | place, [] => .ok place
  | place, name :: rest =>
    if d.view place = .directory then
      if name = ".." then d.follow place.dropLast rest
      else if name.utf8ByteSize ≤ nameLimit then
        if d.view (place ++ [name]) = .nothing then .error .notFound
        else d.follow (place ++ [name]) rest
      else .error .nameTooLong
    else .error .notDirectory

/-- What one more name can do in `follow`: two dots go up from a directory, and any other name is
short enough and stands for something in it.  Every other lemma about `follow` is an induction on
the names with this as its step. -/
theorem follow_cons_eq_ok {d : Disk} {place arrived : Place} {name : String} {rest : List String} :
    d.follow place (name :: rest) = .ok arrived ↔
      d.view place = .directory ∧
        ((name = ".." ∧ d.follow place.dropLast rest = .ok arrived) ∨
          (name ≠ ".." ∧ name.utf8ByteSize ≤ nameLimit ∧ d.view (place ++ [name]) ≠ .nothing ∧
            d.follow (place ++ [name]) rest = .ok arrived)) := by
  rw [follow]
  constructor
  · intro h
    split at h
    case isFalse => cases h
    case isTrue hdirectory =>
      refine ⟨hdirectory, ?_⟩
      split at h
      case isTrue hdots => exact .inl ⟨hdots, h⟩
      case isFalse hname =>
        split at h
        case isFalse => cases h
        case isTrue hlength =>
          split at h
          case isTrue => cases h
          case isFalse hthere => exact .inr ⟨hname, hlength, hthere, h⟩
  · rintro ⟨hdirectory, ⟨hdots, h⟩ | ⟨hname, hlength, hthere, h⟩⟩
    · rw [if_pos hdirectory, if_pos hdots, h]
    · rw [if_pos hdirectory, if_neg hname, if_pos hlength, if_neg hthere, h]

/-- `follow` still leads where it led if directories stay and nothing goes away.  Files may come and
change their bytes; no way leads through them. -/
theorem follow_mono {d d' : Disk} (hdirectory : ∀ place, d.view place = .directory →
      d'.view place = .directory)
    (hthere : ∀ place, d.view place ≠ .nothing → d'.view place ≠ .nothing) (names : List String) :
    ∀ {start arrived : Place},
      d.follow start names = .ok arrived → d'.follow start names = .ok arrived := by
  induction names with
  | nil => exact fun hfollow => hfollow
  | cons name rest ih =>
    intro start arrived hfollow
    obtain ⟨hstart, hstep⟩ := follow_cons_eq_ok.mp hfollow
    refine follow_cons_eq_ok.mpr ⟨hdirectory start hstart, ?_⟩
    rcases hstep with ⟨hdots, hrest⟩ | ⟨hname, hlength, hbelow, hrest⟩
    · exact .inl ⟨hdots, ih hrest⟩
    · exact .inr ⟨hname, hlength, hthere _ hbelow, ih hrest⟩

/-- Every step of a `Trail` led to what the disk holds there. -/
def Trodden (d : Disk) : Trail → Prop
  | [] => True
  | (name, e) :: t => d.Trodden t ∧ d.get? (Trail.place t ++ [name]) = some e

theorem place_cons (name : String) (e : Entry) (t : Trail) :
    Trail.place ((name, e) :: t) = t.place ++ [name] := by
  rw [Trail.place, List.map_cons, List.reverse_cons]
  rfl

theorem place_tail (t : Trail) : Trail.place t.tail = t.place.dropLast := by
  cases t with
  | nil => rfl
  | cons step rest => rw [place_cons, List.dropLast_concat, List.tail_cons]

variable {d : Disk} {t : Trail}

/-- A step back on a way that is `Trodden` leaves one that is.  This is what two dots do. -/
theorem Trodden.tail (h : d.Trodden t) : d.Trodden t.tail := by
  cases t with
  | nil => exact h
  | cons step rest => exact h.1

/-- The entry at the end of a `Trodden` way is the one that the disk holds at that place. -/
theorem Trodden.get? (h : d.Trodden t) : d.get? t.place = some (d.arrived t) := by
  cases t with
  | nil => exact Entry.get?.eq_1 d.root
  | cons step rest =>
    rw [place_cons]
    exact h.2

/-- The entry at the end of a `Trodden` way shows the `view` of the place. -/
theorem Trodden.view (h : d.Trodden t) : d.view t.place = (d.arrived t).shown := by
  have hget : d.root.get? t.place = some (d.arrived t) := h.get?
  rw [Disk.view, Entry.view, hget]

/-- What a name stands for at the end of a `Trodden` way is what the disk holds there.  So `look`,
which looks into the entry at hand, answers for the disk. -/
theorem Trodden.get?_below (h : d.Trodden t) (name : String) :
    d.get? (t.place ++ [name]) = (d.arrived t).entries.lookup name := by
  have hget : d.root.get? t.place = some (d.arrived t) := h.get?
  rw [Disk.get?, Entry.get?_concat, hget, Option.bind_some]

theorem view_eq_directory {place : Place} (h : d.view place = .directory) :
    ∃ entries, d.get? place = some (.directory entries) := by
  rw [view, Entry.view] at h
  rw [get?]
  cases hget : d.root.get? place with
  | none =>
    rw [hget] at h
    cases h
  | some e =>
    rw [hget] at h
    obtain ⟨entries, rfl⟩ := Entry.shown_eq_directory.mp h
    exact ⟨entries, rfl⟩

theorem view_eq_nothing {place : Place} : d.view place = .nothing ↔ d.get? place = none := by
  rw [view, Entry.view, get?]
  cases d.root.get? place with
  | none => exact ⟨fun _ => rfl, fun _ => rfl⟩
  | some e => cases e <;> exact ⟨nofun, nofun⟩

/-- `walkFrom` leads where `follow` leads from place to place, and if it is refused, so are they,
with the same error.  The induction is on the names, for every way that is `Trodden`; that a step
keeps it so is why `look` may use the entry at hand. -/
theorem walkFrom_eq (names : List String) : ∀ {t : Trail}, d.Trodden t →
    match d.walkFrom t names with
    | .ok t' => d.Trodden t' ∧ d.follow t.place names = .ok t'.place
    | .error cause => d.follow t.place names = .error cause := by
  induction names with
  | nil => exact fun h => ⟨h, rfl⟩
  | cons name rest ih =>
    intro t h
    rw [walkFrom, follow, h.view]
    by_cases hdots : name = ".."
    · rw [if_pos hdots, if_pos hdots]
      cases harrived : d.arrived t with
      | file bytes => rfl
      | directory entries =>
        rw [if_pos (show (Entry.directory entries).isDirectory = true from rfl),
          if_pos (show (Entry.directory entries).shown = .directory from rfl), ← place_tail]
        exact ih h.tail
    · rw [if_neg hdots, if_neg hdots, look]
      cases harrived : d.arrived t with
      | file bytes => rfl
      | directory entries =>
        have hbelow := h.get?_below name
        rw [harrived, Entry.entries] at hbelow
        rw [if_pos (show (Entry.directory entries).shown = .directory from rfl)]
        by_cases hlong : name.utf8ByteSize ≤ nameLimit
        · rw [if_pos hlong]
          dsimp only
          rw [if_pos hlong]
          cases hlookup : entries.lookup name with
          | none => rw [if_pos (view_eq_nothing.mpr (hbelow.trans hlookup))]
          | some e =>
            have htrodden : d.Trodden ((name, e) :: t) := ⟨h, hbelow.trans hlookup⟩
            have hthere : d.view (t.place ++ [name]) ≠ .nothing := by
              rw [Ne, view_eq_nothing, hbelow, hlookup]
              exact Option.some_ne_none e
            rw [if_neg hthere, ← place_cons name e t]
            exact ih htrodden
        · rw [if_neg hlong]
          dsimp only
          rw [if_neg hlong]

end Disk

end MessageTemplate
