import OxysOS.Graphics.Shapes
import Mathlib.Data.Bool.AllAny
import Mathlib.Data.List.GetD

/-!
# The bitmap font

`graphics/font.c`: a glyph of eight rows for each printable character of ASCII, and one
for every other code.
-/

namespace OxysOS.Graphics

open OxysOS.Library

def fontWidth : ℕ := 8

def fontHeight : ℕ := 8

/-- `FontGlyphs`, from `FONT_FIRST_CODE` on. -/
def fontGlyphs : List (List UInt8) := [
  [0x00, 0x00, 0x00, 0x00, 0x00, 0x00, 0x00, 0x00],
  [0x20, 0x20, 0x20, 0x20, 0x20, 0x00, 0x20, 0x00],
  [0x50, 0x50, 0x00, 0x00, 0x00, 0x00, 0x00, 0x00],
  [0x50, 0x50, 0xFC, 0x50, 0xFC, 0x50, 0x50, 0x00],
  [0x20, 0x78, 0xA0, 0x70, 0x28, 0xF0, 0x20, 0x00],
  [0xC4, 0xC8, 0x10, 0x20, 0x4C, 0x8C, 0x00, 0x00],
  [0x60, 0x90, 0xA0, 0x40, 0xA8, 0x90, 0x68, 0x00],
  [0x20, 0x20, 0x00, 0x00, 0x00, 0x00, 0x00, 0x00],
  [0x10, 0x20, 0x20, 0x20, 0x20, 0x20, 0x10, 0x00],
  [0x20, 0x10, 0x10, 0x10, 0x10, 0x10, 0x20, 0x00],
  [0x00, 0xA8, 0x70, 0xF8, 0x70, 0xA8, 0x00, 0x00],
  [0x00, 0x20, 0x20, 0xF8, 0x20, 0x20, 0x00, 0x00],
  [0x00, 0x00, 0x00, 0x00, 0x00, 0x30, 0x20, 0x40],
  [0x00, 0x00, 0x00, 0xF8, 0x00, 0x00, 0x00, 0x00],
  [0x00, 0x00, 0x00, 0x00, 0x00, 0x30, 0x30, 0x00],
  [0x04, 0x08, 0x10, 0x20, 0x40, 0x80, 0x00, 0x00],
  [0x78, 0x84, 0x8C, 0x94, 0xA4, 0xC4, 0x78, 0x00],
  [0x20, 0x60, 0x20, 0x20, 0x20, 0x20, 0x70, 0x00],
  [0x78, 0x84, 0x04, 0x18, 0x60, 0x80, 0xFC, 0x00],
  [0x78, 0x84, 0x04, 0x38, 0x04, 0x84, 0x78, 0x00],
  [0x18, 0x28, 0x48, 0x88, 0xFC, 0x08, 0x08, 0x00],
  [0xFC, 0x80, 0xF8, 0x04, 0x04, 0x84, 0x78, 0x00],
  [0x38, 0x40, 0x80, 0xF8, 0x84, 0x84, 0x78, 0x00],
  [0xFC, 0x04, 0x08, 0x10, 0x20, 0x20, 0x20, 0x00],
  [0x78, 0x84, 0x84, 0x78, 0x84, 0x84, 0x78, 0x00],
  [0x78, 0x84, 0x84, 0x7C, 0x04, 0x08, 0x70, 0x00],
  [0x00, 0x30, 0x30, 0x00, 0x30, 0x30, 0x00, 0x00],
  [0x00, 0x30, 0x30, 0x00, 0x30, 0x20, 0x40, 0x00],
  [0x08, 0x10, 0x20, 0x40, 0x20, 0x10, 0x08, 0x00],
  [0x00, 0x00, 0xF8, 0x00, 0xF8, 0x00, 0x00, 0x00],
  [0x40, 0x20, 0x10, 0x08, 0x10, 0x20, 0x40, 0x00],
  [0x78, 0x84, 0x04, 0x18, 0x20, 0x00, 0x20, 0x00],
  [0x78, 0x84, 0xBC, 0xA4, 0xB8, 0x80, 0x78, 0x00],
  [0x30, 0x48, 0x84, 0x84, 0xFC, 0x84, 0x84, 0x00],
  [0xF8, 0x84, 0x84, 0xF8, 0x84, 0x84, 0xF8, 0x00],
  [0x78, 0x84, 0x80, 0x80, 0x80, 0x84, 0x78, 0x00],
  [0xF0, 0x88, 0x84, 0x84, 0x84, 0x88, 0xF0, 0x00],
  [0xFC, 0x80, 0x80, 0xF8, 0x80, 0x80, 0xFC, 0x00],
  [0xFC, 0x80, 0x80, 0xF8, 0x80, 0x80, 0x80, 0x00],
  [0x78, 0x84, 0x80, 0x9C, 0x84, 0x84, 0x78, 0x00],
  [0x84, 0x84, 0x84, 0xFC, 0x84, 0x84, 0x84, 0x00],
  [0x70, 0x20, 0x20, 0x20, 0x20, 0x20, 0x70, 0x00],
  [0x1C, 0x04, 0x04, 0x04, 0x84, 0x84, 0x78, 0x00],
  [0x84, 0x88, 0x90, 0xE0, 0x90, 0x88, 0x84, 0x00],
  [0x80, 0x80, 0x80, 0x80, 0x80, 0x80, 0xFC, 0x00],
  [0x84, 0xCC, 0xB4, 0xB4, 0x84, 0x84, 0x84, 0x00],
  [0x84, 0xC4, 0xA4, 0x94, 0x8C, 0x84, 0x84, 0x00],
  [0x78, 0x84, 0x84, 0x84, 0x84, 0x84, 0x78, 0x00],
  [0xF8, 0x84, 0x84, 0xF8, 0x80, 0x80, 0x80, 0x00],
  [0x78, 0x84, 0x84, 0x84, 0xB4, 0x94, 0x6C, 0x00],
  [0xF8, 0x84, 0x84, 0xF8, 0x90, 0x88, 0x84, 0x00],
  [0x78, 0x84, 0x80, 0x78, 0x04, 0x84, 0x78, 0x00],
  [0xF8, 0x20, 0x20, 0x20, 0x20, 0x20, 0x20, 0x00],
  [0x84, 0x84, 0x84, 0x84, 0x84, 0x84, 0x78, 0x00],
  [0x84, 0x84, 0x84, 0x84, 0x48, 0x48, 0x30, 0x00],
  [0x84, 0x84, 0x84, 0xB4, 0xB4, 0xCC, 0x84, 0x00],
  [0x84, 0x48, 0x30, 0x30, 0x30, 0x48, 0x84, 0x00],
  [0x84, 0x48, 0x30, 0x20, 0x20, 0x20, 0x20, 0x00],
  [0xFC, 0x04, 0x08, 0x30, 0x40, 0x80, 0xFC, 0x00],
  [0x38, 0x20, 0x20, 0x20, 0x20, 0x20, 0x38, 0x00],
  [0x80, 0x40, 0x20, 0x10, 0x08, 0x04, 0x00, 0x00],
  [0x38, 0x08, 0x08, 0x08, 0x08, 0x08, 0x38, 0x00],
  [0x20, 0x50, 0x88, 0x00, 0x00, 0x00, 0x00, 0x00],
  [0x00, 0x00, 0x00, 0x00, 0x00, 0x00, 0x00, 0xFC],
  [0x20, 0x10, 0x00, 0x00, 0x00, 0x00, 0x00, 0x00],
  [0x00, 0x00, 0x78, 0x04, 0x7C, 0x84, 0x7C, 0x00],
  [0x80, 0x80, 0xF8, 0x84, 0x84, 0x84, 0xF8, 0x00],
  [0x00, 0x00, 0x78, 0x84, 0x80, 0x84, 0x78, 0x00],
  [0x04, 0x04, 0x7C, 0x84, 0x84, 0x84, 0x7C, 0x00],
  [0x00, 0x00, 0x78, 0x84, 0xFC, 0x80, 0x78, 0x00],
  [0x18, 0x20, 0xF8, 0x20, 0x20, 0x20, 0x20, 0x00],
  [0x00, 0x00, 0x7C, 0x84, 0x84, 0x7C, 0x04, 0x78],
  [0x80, 0x80, 0xF8, 0x84, 0x84, 0x84, 0x84, 0x00],
  [0x20, 0x00, 0x60, 0x20, 0x20, 0x20, 0x70, 0x00],
  [0x08, 0x00, 0x18, 0x08, 0x08, 0x08, 0x88, 0x70],
  [0x80, 0x80, 0x88, 0x90, 0xE0, 0x90, 0x88, 0x00],
  [0x60, 0x20, 0x20, 0x20, 0x20, 0x20, 0x70, 0x00],
  [0x00, 0x00, 0xD8, 0xA4, 0xA4, 0xA4, 0xA4, 0x00],
  [0x00, 0x00, 0xF8, 0x84, 0x84, 0x84, 0x84, 0x00],
  [0x00, 0x00, 0x78, 0x84, 0x84, 0x84, 0x78, 0x00],
  [0x00, 0x00, 0xF8, 0x84, 0x84, 0xF8, 0x80, 0x80],
  [0x00, 0x00, 0x7C, 0x84, 0x84, 0x7C, 0x04, 0x04],
  [0x00, 0x00, 0xB8, 0xC0, 0x80, 0x80, 0x80, 0x00],
  [0x00, 0x00, 0x7C, 0x80, 0x78, 0x04, 0xF8, 0x00],
  [0x20, 0x20, 0xF8, 0x20, 0x20, 0x28, 0x10, 0x00],
  [0x00, 0x00, 0x84, 0x84, 0x84, 0x8C, 0x74, 0x00],
  [0x00, 0x00, 0x84, 0x84, 0x84, 0x48, 0x30, 0x00],
  [0x00, 0x00, 0x84, 0xA4, 0xA4, 0xA4, 0x58, 0x00],
  [0x00, 0x00, 0x84, 0x48, 0x30, 0x48, 0x84, 0x00],
  [0x00, 0x00, 0x84, 0x84, 0x84, 0x7C, 0x04, 0x78],
  [0x00, 0x00, 0xFC, 0x08, 0x30, 0x40, 0xFC, 0x00],
  [0x18, 0x20, 0x20, 0x40, 0x20, 0x20, 0x18, 0x00],
  [0x20, 0x20, 0x20, 0x20, 0x20, 0x20, 0x20, 0x00],
  [0x30, 0x08, 0x08, 0x04, 0x08, 0x08, 0x30, 0x00],
  [0x00, 0x00, 0x64, 0x98, 0x00, 0x00, 0x00, 0x00]]

def fontReplacement : List UInt8 := [0x00, 0x7C, 0x44, 0x44, 0x44, 0x44, 0x7C, 0x00]

def fontCovers (code : UInt8) : Bool := code ≥ 0x20 ∧ code ≤ 0x7E

def fontGlyph (code : UInt8) : List UInt8 :=
  if ¬fontCovers code then fontReplacement
  else fontGlyphs.getD (code - 0x20).toNat []

def fontDrawGlyphOpaque (surface : GraphicsSurface) (memory : Bytes) (x y : ℤ) (code : UInt8)
    (ink paper : UInt32) : Bytes :=
  graphicsPatternBlock surface memory x y (fun row ↦ (fontGlyph code).getD row 0) fontHeight ink
    paper

theorem fontGlyph_space : fontGlyph 0x20 = List.replicate 8 0 := rfl

end OxysOS.Graphics
