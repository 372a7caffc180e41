import Footprint.Screen.Style

set_option autoImplicit false

/-!
The colors of the viewer.
-/

namespace Footprint.Palette

def text : Color := .rgb 205 214 244

def accent : Color := .rgb 137 180 250

def muted : Color := .rgb 108 112 134

/-- Marks of executed lines, and runs that were completed. -/
def covered : Color := .rgb 166 227 161

def failed : Color := .rgb 243 139 168

def keyword : Color := .rgb 203 166 247

def literal : Color := .rgb 250 179 135

/-- Names of functions that are called. -/
def call : Color := .rgb 249 226 175

def focusedBorder : Color := .rgb 249 226 175

def border : Color := .rgb 88 91 112

/-- Behind the status line and the selected run. -/
def panel : Color := .rgb 49 50 68

/-- Behind executed lines. -/
def coveredLine : Color := .rgb 36 58 46

end Footprint.Palette
