import DotLayout.Data.Value
import DotLayout.Layout.Algorithm
import DotLayout.Routing.Resolver
import DotLayout.Snapshot

/-! # Settings

    What a user may set: the algorithm by its name, the parameters of the layout, and how edges
    are drawn.  Settings are read from a `Value`; whatever is missing has its default, and bounds
    cannot be set.

    `layOut` places the nodes of a graph: by the algorithm that is set, or else by the one that
    the graph's `layout` attribute names, or else by the default. -/

namespace DotLayout

open Data Layout Numeric Routing

/-- What a user may set. -/
structure Settings where
  algorithm : Option String := none
  params : Params := {}
  resolver : Resolver := {}

namespace Settings

/-- Reads a point; both coordinates must be there. -/
def pointOfValue? (v : Value) : Option Point := do
  let fields ← v.fields?
  return ⟨← required? Value.single? "x" fields, ← required? Value.single? "y" fields⟩

/-- Reads the numbers of the force layout. -/
def forceOfValue? (v : Value) : Option Force := do
  let fields ← v.fields?
  let default : Force := {}
  return {
    iterations := ← field? Value.count? "iterations" default.iterations fields
    attraction := ← field? Value.single? "attraction" default.attraction fields
    repulsion := ← field? Value.single? "repulsion_multiplier" default.repulsion fields
    damping := ← field? Value.single? "damping" default.damping fields }

/-- Reads the numbers of the radial layout. -/
def ringsOfValue? (v : Value) : Option Rings := do
  let fields ← v.fields?
  let default : Rings := {}
  return {
    baseRadius := ← field? Value.single? "base_radius" default.baseRadius fields
    radiusStep := ← field? Value.single? "radius_step" default.radiusStep fields }

/-- Reads the algorithm and the parameters of the layout. -/
def layoutOfValue? (v : Value) : Option (Option String × Params) := do
  let fields ← v.fields?
  let default : Params := {}
  let algorithm ← optional? Value.text? "algorithm" fields
  let params : Params := {
    anchor := ← optional? Value.text? "anchor" fields
    spacing := ← field? Value.single? "spacing" default.spacing fields
    padding := ← field? Value.single? "padding" default.padding fields
    rankSpacing := ← field? Value.single? "rank_spacing" default.rankSpacing fields
    center := ← field? pointOfValue? "center" default.center fields
    minRadius := ← field? Value.single? "min_radius" default.minRadius fields
    gridColumns := ← optional? Value.count? "grid_columns" fields
    force := ← field? forceOfValue? "force" default.force fields
    rings := ← field? ringsOfValue? "radial" default.rings fields }
  return (algorithm, params)

/-- Reads a side: its name, or a table with nothing under its name. -/
def sideOfValue? (format : Format) : Value → Option Side
  | .text name => Side.ofName? name
  | .table [(name, v)] => if format.isNothing v then Side.ofName? name else none
  | _ => none

def portsOfValue? (format : Format) (v : Value) : Option Ports := do
  let fields ← v.fields?
  let default : Ports := {}
  return {
    source := ← field? (sideOfValue? format) "source" default.source fields
    target := ← field? (sideOfValue? format) "target" default.target fields }

def resolverOfValue? (format : Format) (v : Value) : Option Resolver := do
  let fields ← v.fields?
  let default : Resolver := {}
  return {
    curvature := ← field? Value.single? "curvature" default.curvature fields
    ports := ← field? (portsOfValue? format) "orthogonal_ports" default.ports fields }

/-- Reads settings that were written in a format. -/
def ofValue? (format : Format) (v : Value) : Option Settings := do
  let fields ← v.fields?
  let (algorithm, params) ← field? layoutOfValue? "layout" (none, {}) fields
  return {
    algorithm := algorithm
    params := params
    resolver := ← field? (resolverOfValue? format) "geometry" {} fields }

/-- The algorithm that is set; an unknown name stands for the default one. -/
def algorithm? (s : Settings) : Option Algorithm := s.algorithm.map Algorithm.ofName

/-- Settings with another algorithm and another anchor, where these are given. -/
def override (s : Settings) (algorithm anchor : Option String) : Settings :=
  { s with
    algorithm := algorithm.or s.algorithm
    params := { s.params with anchor := anchor.or s.params.anchor } }

def algorithmFor (s : Settings) (g : Graph) : Algorithm :=
  (s.algorithm?.or ((g.attribute? "layout").map Algorithm.ofName)).getD .default

/-- Places the nodes of a graph, and says by which algorithm. -/
def layOut (s : Settings) (g : Graph) : Except ClampFault (Algorithm × Graph) := do
  let algorithm := s.algorithmFor g
  let positions ← algorithm.layout g s.params
  return (algorithm, g.applyPositions positions)

/-- The text of a graph and the ways of its edges. -/
def render (s : Settings) (g : Graph) : String := (Snapshot.capture g s.resolver).text true

end Settings

end DotLayout
