import Consent.Permission.State
import Consent.Screen.Block
import Consent.Screen.Color
import Consent.Settings.Basic

/-! The colors and signs that decisions are shown with. -/

namespace Consent.Screen

open Text

namespace Icon

def check : Char := Char.ofNat 0xf00c
def cross : Char := Char.ofNat 0xf00d
def database : Char := Char.ofNat 0xf1c0
def trash : Char := Char.ofNat 0xf1f8
def clock : Char := Char.ofNat 0xf017
def lock : Char := Char.ofNat 0xf023
def unlock : Char := Char.ofNat 0xf09c
def question : Char := Char.ofNat 0xf128
def globe : Char := Char.ofNat 0xf0ac

def ofState (s : State) : Char :=
  if s.isAllowing then unlock else if s = .block then lock else question

end Icon

structure Theme where
  palette : Settings.Palette
  error : String := "#ef4444"
  warning : String := "#f59e0b"
  deriving DecidableEq, Repr

namespace Theme

/-- The theme of a palette; one without a background stands for the default palette. -/
def ofPalette (p : Settings.Palette) : Theme :=
  ⟨if p.background = "" then {} else p, "#ef4444", "#f59e0b"⟩

def success (t : Theme) : String := t.palette.accent

/-- Text in a style; several lines are filled to one width. -/
def render (mode : ColorMode) (style : Style) (s : List Char) : String :=
  .ofList (Block.text ((Block.ofText s).map (style.paint mode)))

def stateColor (t : Theme) (s : State) : String :=
  if s.isAllowing then t.success
  else if s = .block then t.error
  else if s = .prompt then t.warning
  else t.palette.muted

def renderState (mode : ColorMode) (t : Theme) (s : State) : String :=
  render mode { foreground := t.stateColor s } (Icon.ofState s :: ' ' :: s.name.toList)

def renderScope (mode : ColorMode) (t : Theme) (scope : String) : String :=
  let style : Style :=
    if scope = "session" then ⟨t.palette.text, t.palette.surfaceVariant, 1⟩
    else ⟨t.palette.background, t.palette.accent, 1⟩
  render mode style scope.toList

end Theme

end Consent.Screen
