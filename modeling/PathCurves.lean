import PathCurves.Draft
import PathCurves.Main
import PathCurves.Proofs.Exact
import PathCurves.Proofs.Bisector
import PathCurves.Proofs.Circle
import PathCurves.Proofs.Deltoid
import PathCurves.Proofs.DeltoidCurve
import PathCurves.Proofs.DeltoidSymmetry
import PathCurves.Proofs.Translation
import PathCurves.Proofs.ArcFit
import PathCurves.Proofs.Binary64
import PathCurves.Proofs.Fields
import PathCurves.Proofs.Grid
import PathCurves.Proofs.Lines
import PathCurves.Proofs.Literal
import PathCurves.Proofs.Reading
import PathCurves.Proofs.Shortest
import PathCurves.Proofs.Printing
import PathCurves.Proofs.Report
import PathCurves.Proofs.Splice
import PathCurves.Proofs.Editing
import PathCurves.Proofs.ExactRescaling
import PathCurves.Proofs.AnchorBox
import PathCurves.Proofs.Reversal
import PathCurves.Proofs.Rise
import PathCurves.Proofs.Frames
import PathCurves.Proofs.Extent
import PathCurves.Proofs.Fresnel
import PathCurves.Proofs.Spiral
import PathCurves.Proofs.FresnelGrowth
import PathCurves.Proofs.Anchors
import PathCurves.Proofs.Streaming
import PathCurves.Proofs.ArcFaults
import PathCurves.Proofs.Machine
import PathCurves.Proofs.Collinear
import PathCurves.Proofs.Number
import PathCurves.Proofs.Mantissa
import PathCurves.Proofs.Arithmetic
import PathCurves.Proofs.Magnitude
import PathCurves.Proofs.CircleRange
import PathCurves.Proofs.Rescaling
import PathCurves.Proofs.SpiralRange
import PathCurves.Proofs.FresnelAccuracy
import PathCurves.Proofs.Negation
import PathCurves.Proofs.Extremes
import PathCurves.Proofs.Joining
import PathCurves.Proofs.Messages
import PathCurves.Proofs.Positions
import PathCurves.Proofs.RescalingAgain
import PathCurves.Proofs.Polygon
import PathCurves.Proofs.HeadingRange
import PathCurves.Proofs.Samples
import PathCurves.Proofs.Arrangement
import PathCurves.Proofs.Meeting
