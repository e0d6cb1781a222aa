import MiniExt.Properties.Overwrite
import MiniExt.Properties.Blocks
import MiniExt.Properties.Cuts
import MiniExt.Properties.ByteLog
import MiniExt.Properties.Footprints
import MiniExt.Properties.Names
import MiniExt.Properties.ReadBounds
import MiniExt.Properties.HostFiles
import MiniExt.Properties.FlatImage
import MiniExt.Properties.Termination
import MiniExt.Properties.Input
import MiniExt.Properties.Handles
import MiniExt.Properties.Geometry
import MiniExt.Properties.PathWalk
import MiniExt.Properties.SplitPath
import MiniExt.Properties.ParsePath
import MiniExt.Properties.RejectedBlocks
import MiniExt.Properties.CreationHelpers
import MiniExt.Properties.Positions
import MiniExt.Properties.PositionBounds
import MiniExt.Properties.ClosedDescriptors
import MiniExt.Properties.ReadCommand
import MiniExt.Properties.Lookup
import MiniExt.Properties.FieldWidths
import MiniExt.Properties.ByteRuns
import MiniExt.Ideal.ByteSessions
import MiniExt.Interface.LinePrinting
import MiniExt.Properties.CommandLines
import MiniExt.Properties.PrintedRuns
import MiniExt.Ideal.TypedSessions
import MiniExt.Ideal.Isolation
import MiniExt.Ideal.Accounting
