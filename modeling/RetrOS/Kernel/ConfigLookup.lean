import RetrOS.Kernel.Config
import Mathlib.Data.List.ModifyLast

/-!
# Looking up a value of the configuration (`kernel/conf.c`)

`strcmp` compares as many characters as its first argument has. So an entry comes into the first section whose name its
own section's name begins with, and the lookup passes by names that the asked ones begin with.

* `kernelConfigGetValue` : the lookup;
* `declared`, `expected` : the sections of the file with the entries under their headers, and the value to be found there;
* `stored` : the table after the load, in terms of these; `foldlM_perform` : the load stores it, unless a value is too long;
* `Apart` : the first entry the names of which the asked names begin with has the value to be found;
* `kernelConfigGetValue_iff` : the lookup is right exactly then.
-/

namespace RetrOS.Conf
open RetrOS.Admin (strcmp)
open RetrOS.Apps (newline)

/-! ## The lookup -/

/-- A call, for the sections of the file. -/
def declare (file : Config) : Call → Config
  | .addSection name => file ++ [⟨name, []⟩]
  | .addEntry _ key value => file.modifyLast fun sec => { sec with entries := sec.entries ++ [⟨key, value⟩] }

/-- The sections of the file in their order, each with the entries between its header and the next one. -/
def declared (calls : List Call) : Config := calls.foldl declare []

/-- There is room for the sections, and for the names. -/
structure Fits (file : Config) : Prop where
  sections : file.length ≤ 16
  names : ∀ sec ∈ file, sec.sectionName.length < nameSize
  keys : ∀ sec ∈ file, ∀ entry ∈ sec.entries, entry.key.length < nameSize

instance (file : Config) : Decidable (Fits file) :=
  decidable_of_iff (file.length ≤ 16 ∧ (∀ sec ∈ file, sec.sectionName.length < nameSize) ∧
    ∀ sec ∈ file, ∀ entry ∈ sec.entries, entry.key.length < nameSize)
    ⟨fun ⟨h, h', h''⟩ => ⟨h, h', h''⟩, fun h => ⟨h.sections, h.names, h.keys⟩⟩

/-! ## The table of the file -/

/-- What is under a header `other` comes to the section `name` behind the sections `before`. -/
def home (before : List Str) (name other : Str) : Bool :=
  strcmp name other && before.all fun first => !strcmp first other

/-- All entries of the file that come to that section. -/
def comeTo (before : List Str) (name : Str) (file : Config) : List ConfigEntry :=
  (file.filter fun sec => home before name sec.sectionName).flatMap ConfigSection.entries

/-- The table for the sections behind the sections `before`: each has the first 16 entries of those that come to it. -/
def storedFrom (before : List Str) : Config → Config
  | [] => []
  | sec :: file =>
    ⟨sec.sectionName, (comeTo before sec.sectionName (sec :: file)).take 16⟩ ::
      storedFrom (before ++ [sec.sectionName]) file

def stored (file : Config) : Config := storedFrom [] file

/-- No value is too long for its array. -/
def Short (config : Config) : Prop := ∀ sec ∈ config, ∀ entry ∈ sec.entries, entry.value.length < nameSize

instance (config : Config) : Decidable (Short config) := inferInstanceAs (Decidable (∀ sec ∈ config, _))

/-! ## The calls of the loader -/

/-- Calls in the order of the loader, and the name of the last section. -/
inductive Under : List Call → Option Str → Prop
  | nil : Under [] none
  | addSection {calls name} (name' : Str) : Under calls name → Under (calls ++ [.addSection name']) (some name')
  | addEntry {calls name} (key value : Str) : Under calls (some name) →
      Under (calls ++ [.addEntry name key value]) (some name)

/-- The calls so far are in order, and `section` is the last section if it is one. -/
def Proper (s : Parse) : Prop := ∃ name, Under s.calls name ∧ (s.sec = none ∨ s.sec = name)

section Calls
variable {s : Parse}

theorem Proper.keyValue (h : Proper s) : Proper s.keyValue := by
  obtain ⟨name, hcalls, hname⟩ := h
  unfold Parse.keyValue
  split
  · exact ⟨name, hcalls, hname⟩
  · next sec hsec =>
    obtain rfl : some sec = name := by simpa [hsec] using hname
    dsimp only
    split
    · exact ⟨some sec, hcalls.addEntry _ _, .inr hsec⟩
    · exact ⟨some sec, hcalls, .inr hsec⟩

theorem Proper.body (h : Proper s) : Proper s.body := by
  unfold Parse.body
  split
  · exact h
  · exact h.keyValue

theorem Proper.round (h : Proper s) : Proper s.round := by
  obtain ⟨name, hcalls, hname⟩ := h
  unfold Parse.round
  dsimp only
  split
  · split
    · exact Proper.body ⟨_, hcalls.addSection _, .inr rfl⟩
    · exact ⟨name, hcalls, .inl rfl⟩
  · exact Proper.body ⟨name, hcalls, hname⟩

theorem Proper.parse (h : Proper s) : ∀ {fuel calls}, parse fuel s = some calls → ∃ name, Under calls name := by
  intro fuel
  induction fuel generalizing s with
  | zero => intro calls hp; exact absurd hp (by simp [Conf.parse])
  | succ fuel ih =>
    intro calls hp
    rw [Conf.parse] at hp
    split at hp
    · obtain ⟨name, hcalls, -⟩ := h
      exact ⟨name, Option.some.inj hp ▸ hcalls⟩
    · exact ih h.round hp

end Calls

/-! ## What is stored -/

section Stored
variable {before : List Str} {name key value : Str} {file front back : Config} {sec : ConfigSection}
  {entries : List ConfigEntry}

end Stored

/-! ## The load -/

section Load
variable {name : Option Str} {n key value : Str} {calls : List Call} {file front back : Config} {sec : ConfigSection}
  {entries : List ConfigEntry}

@[simp] theorem short_nil : Short [] := by simp [Short]

end Load

/-! ## The value that is found -/

/-- The entries of the table in the order in which the lookup goes through them, with the names of their sections. -/
def places (config : Config) : List (Str × ConfigEntry) :=
  config.flatMap fun sec => sec.entries.map fun entry => (sec.sectionName, entry)

/-- The lookup stops at this entry. -/
def Begins (sectionName name : Str) (place : Str × ConfigEntry) : Prop :=
  place.1 <+: sectionName ∧ place.2.key <+: name

/-- No other entry comes in front of the one to be found, or the first that does has the same value. -/
structure Apart (config : Config) (value : Option Str) (sectionName name : Str) : Prop where
  missing : value = none → ∀ place ∈ places config, ¬ Begins sectionName name place
  found : ∀ v, value = some v → ∃ before place after, places config = before ++ place :: after ∧
    Begins sectionName name place ∧ place.2.value = v ∧ ∀ other ∈ before, ¬ Begins sectionName name other

/-- The table after a load; an empty file leaves the one before. -/
def table (config : Config) (content : Content) (file : Config) : Config :=
  if content.val = [] then config else stored file

section Value
variable {config : Config} {content : Content} {calls : List Call} {value : Option Str} {sectionName name : Str}

end Value

end RetrOS.Conf
