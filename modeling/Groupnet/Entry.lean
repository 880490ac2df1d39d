import Groupnet.Lib.Netstring

/-!
# Entry keys

The tiers that keep several sets inside one group address them by entry keys.  A set is the
default one or a named one.  Its segment is `d`, or `n` and the name behind its length, so
that no name has to be scanned for a separator.

A set with one entry is addressed by `setKey`, and an entry of a set that has many by its key
behind `setPrefix`.  The segment can be read off the front of what follows the base, so no
name and no key, whatever characters it holds, makes two addresses one.
-/

namespace Groupnet.Entry

/-- Appends the segment of a set, `none` for the default one. -/
def pushSet (out : String) : Option String → String
  | none => out ++ "d"
  | some name => out ++ ("n" ++ name.utf8ByteSize.repr ++ ":") ++ name

def setKey (base : String) (set : Option String) : String := pushSet (base ++ "/") set

def setPrefix (base : String) (set : Option String) : String := setKey base set ++ "/"

def entryKey (setPrefix key : String) : String := setPrefix ++ key

def segment : Option String → String
  | none => "d"
  | some name => "n" ++ Netstring.put name

theorem setKey_eq (base : String) (set : Option String) :
    setKey base set = base ++ "/" ++ segment set := by
  cases set with
  | none => rfl
  | some name => simp only [setKey, pushSet, segment, Netstring.put, String.append_assoc]

theorem entryKey_eq (base : String) (set : Option String) (key : String) :
    entryKey (setPrefix base set) key = base ++ "/" ++ (segment set ++ ("/" ++ key)) := by
  simp only [entryKey, setPrefix, setKey_eq, String.append_assoc]

/-- The default set is no named one. -/
theorem d_ne_n (t t' : String) : "d" ++ t ≠ "n" ++ t' := by
  intro h
  have hlist := congrArg String.toList h
  simp only [String.toList_append] at hlist
  cases hlist

/-- A text starts with at most one segment. -/
theorem segment_unique {set set' : Option String} {t t' : String}
    (h : segment set ++ t = segment set' ++ t') : set = set' ∧ t = t' := by
  cases set with
  | none =>
    cases set' with
    | none => exact ⟨rfl, (String.append_right_inj _).mp h⟩
    | some name' =>
      simp only [segment, String.append_assoc] at h
      exact absurd h (d_ne_n _ _)
  | some name =>
    cases set' with
    | none =>
      simp only [segment, String.append_assoc] at h
      exact absurd h.symm (d_ne_n _ _)
    | some name' =>
      simp only [segment, String.append_assoc] at h
      obtain ⟨rfl, rfl⟩ := Netstring.put_unique ((String.append_right_inj _).mp h)
      exact ⟨rfl, rfl⟩

theorem segment_unique_alone {set set' : Option String} {t : String}
    (h : segment set = segment set' ++ t) :
    set = set' ∧ t = "" := by
  rw [← String.append_empty (s := segment set)] at h
  obtain ⟨hset, ht⟩ := segment_unique h
  exact ⟨hset, ht.symm⟩

/-- No two addresses of a base are one: those of the entries of its sets, those of its sets,
and one of each. -/
theorem addresses_injective (base : String) :
    (Function.Injective fun at_ : Option String × String => entryKey (setPrefix base at_.1) at_.2) ∧
      Function.Injective (setKey base) ∧
      ∀ set set' key, setKey base set ≠ entryKey (setPrefix base set') key := by
  refine ⟨?_, ?_, ?_⟩
  · rintro ⟨set, key⟩ ⟨set', key'⟩ h
    simp only [entryKey_eq] at h
    obtain ⟨rfl, htail⟩ := segment_unique ((String.append_right_inj _).mp h)
    rw [(String.append_right_inj _).mp htail]
  · intro set set' h
    rw [setKey_eq, setKey_eq] at h
    have hseg := (String.append_right_inj _).mp h
    rw [← String.append_empty (s := segment set')] at hseg
    exact (segment_unique_alone hseg).1
  · intro set set' key h
    rw [setKey_eq, entryKey_eq] at h
    have hempty := (segment_unique_alone ((String.append_right_inj _).mp h)).2
    have hlist := congrArg String.toList hempty
    simp only [String.toList_append] at hlist
    cases hlist

example : entryKey (setPrefix "~floor" (some "lsn/s7")) "" = "~floor/n6:lsn/s7/" := by decide

end Groupnet.Entry
