import RetrOS.Lib.Linked
import Mathlib.Data.Fintype.Card

/-!
# The window manager (`graphics/windowmanager.c`)

The windows of a workspace are linked from front to back, and `window_count` is what `add` and `remove` have counted.

* `WindowManager` : the manager, and the fields of the windows `P` that it reads and writes;
* `seek` : the loops. One that has passed more windows than there are never ends;
* `defaultAdd`, `defaultWorkspace`, `defaultRemove`, `defaultPushBack`, `defaultPushFront` : the operations, `none`
  where they follow NULL, panic or never end;
* `WmOp`, `WindowManager.step` : one operation, its return value and the manager after it.

The texts for the debugger and the spin lock are left out.
-/

namespace RetrOS
open RetrOS.Lib

variable {P : Type*}

/-- The fields of `struct window` that the manager uses. -/
structure WindowFields (P : Type*) where
  next : P → Option P
  inFocus : P → Bool
  changed : P → Bool
  flags : P → Nat

/-- `struct windowmanager` and the windows. -/
structure WindowManager (P : Type*) extends WindowFields P where
  windows : Option P
  workspaces : Fin 4 → Option P
  workspace : Fin 4
  windowCount : Nat

namespace WindowManager

/-- `HAS_FLAG(window->flags, GFX_HIDE_HEADER)` -/
def hideHeader (wm : WindowManager P) (window : P) : Bool := wm.flags window &&& (1 <<< 5) ≠ 0

/-- The first list of each workspace: the current one is in `windows`. -/
def head (wm : WindowManager P) (i : Fin 4) : Option P := if i = wm.workspace then wm.windows else wm.workspaces i

variable [DecidableEq P]

/-- The first window from `i` on whose link is `target`, or NULL. -/
def seek (next : P → Option P) (target : Option P) : Nat → Option P → Option (Option P)
  | 0, _ => none
  | _ + 1, none => some none
  | fuel + 1, some i => if next i = target then some (some i) else seek next target fuel (next i)

def defaultAdd (wm : WindowManager P) : Option P → Option (Int × WindowManager P)
  | none => some (-2, wm)
  | some window =>
    if wm.windowCount = 0 then
      some (0, { wm with
        windows := some window
        inFocus := Function.update wm.inFocus window true
        windowCount := wm.windowCount + 1 })
    else
      let added := { wm with
        windows := some window
        next := Function.update wm.next window wm.windows
        windowCount := wm.windowCount + 1 }
      if wm.hideHeader window then some (0, added)
      else wm.windows.map fun current =>
        (0, { added with inFocus := Function.update (Function.update wm.inFocus window true) current false })

def defaultWorkspace (wm : WindowManager P) (workspace : Int) : Option (Int × WindowManager P) :=
  if h : workspace < 0 ∨ workspace ≥ 4 then some (-3, wm)
  else
    let i : Fin 4 := ⟨workspace.toNat, by omega⟩
    let workspaces := Function.update wm.workspaces wm.workspace wm.windows
    some (0, { wm with workspaces := workspaces, windows := workspaces i, workspace := i })

/-- The front window is drawn again and gets the focus, if there is one. -/
def focusFront (wm : WindowManager P) : WindowManager P :=
  match wm.windows with
  | none => wm
  | some front => { wm with
      changed := Function.update wm.changed front true
      inFocus := Function.update wm.inFocus front true }

variable [Fintype P]

/-- The part of `wm_default_remove` that takes the window out of the list. -/
def unlink (wm : WindowManager P) (window : Option P) : Option (WindowManager P) :=
  if wm.windows = window then window.map fun w => { wm with windows := wm.next w }
  else
    (seek wm.next window (Fintype.card P + 1) wm.windows).bind fun i =>
      match i with
      | none => some wm
      | some i => window.map fun w => { wm with next := Function.update wm.next i (wm.next w) }

def defaultRemove (wm : WindowManager P) (window : Option P) : Option (Int × WindowManager P) :=
  if wm.windowCount = 0 then some (-22, wm)
  else if wm.windows = none then none
  else (wm.unlink window).map fun wm =>
    let wm := wm.focusFront
    (0, { wm with windowCount := wm.windowCount - 1 })

def defaultPushBack (wm : WindowManager P) (window : Option P) : Option (Int × WindowManager P) :=
  if wm.windowCount < 2 then some (0, wm)
  else window.bind fun w =>
    (defaultRemove { wm with inFocus := Function.update wm.inFocus w false } window).bind fun (ret, wm) =>
      if ret < 0 then none
      else (seek wm.next none (Fintype.card P + 1) wm.windows).map fun i =>
        let next := match i with
          | none => wm.next
          | some i => Function.update wm.next i window
        let wm := { wm with
          next := Function.update next w none
          changed := Function.update wm.changed w true
          windowCount := wm.windowCount + 1 }
        (0, wm.focusFront)

def defaultPushFront (wm : WindowManager P) (window : Option P) : Option (Int × WindowManager P) :=
  if window = wm.windows then some (0, wm)
  else (defaultRemove wm window).bind fun (ret, wm) =>
    if ret < 0 then none
    else window.bind fun w =>
      let pushed := { wm with
        windows := window
        next := Function.update wm.next w wm.windows
        changed := Function.update wm.changed w true
        windowCount := wm.windowCount + 1 }
      if wm.hideHeader w then some (0, pushed)
      else wm.windows.map fun front =>
        (0, { pushed with inFocus := Function.update (Function.update wm.inFocus front false) w true })

end WindowManager

/-- An operation and the window that it is called with. -/
inductive WmOp (P : Type*)
  | add (window : Option P)
  | remove (window : Option P)
  | pushBack (window : Option P)
  | pushFront (window : Option P)
  | workspace (i : Int)

variable [DecidableEq P] [Fintype P]

def WindowManager.step (wm : WindowManager P) : WmOp P → Option (Int × WindowManager P)
  | .add window => wm.defaultAdd window
  | .remove window => wm.defaultRemove window
  | .pushBack window => wm.defaultPushBack window
  | .pushFront window => wm.defaultPushFront window
  | .workspace i => wm.defaultWorkspace i

end RetrOS
