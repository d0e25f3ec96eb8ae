import Cosmonaut.Interleaving.Pool
import Cosmonaut.Model.Osm
import Cosmonaut.Model.CosmonautJob
import Cosmonaut.Model.StreetSelector
import Cosmonaut.Model.Pages
import Cosmonaut.Model.Effects
import Cosmonaut.Row.SubmitInputs
import Cosmonaut.Row.RefusedInput
import Cosmonaut.Model.Footprint
import Cosmonaut.Row.Writers
import Cosmonaut.Row.FrozenInput
import Cosmonaut.Row.UploadOwner
import Cosmonaut.Storage.StaleUpload
import Cosmonaut.Model.Authors
import Cosmonaut.Storage.Reset
import Cosmonaut.Model.UploadTasks
import Cosmonaut.Storage.NetworkAgrees
import Cosmonaut.Model.JobRuns
import Cosmonaut.Model.RunCalls
import Cosmonaut.Runs.Orphans
import Cosmonaut.Runs.FailurePath
import Cosmonaut.Runs.StoredInputs
import Cosmonaut.Runs.RowTask
import Cosmonaut.Runs.Cancel
import Cosmonaut.Runs.TaskNamed
import Cosmonaut.Runs.EndMail
import Cosmonaut.Row.LegacyEdits
import Cosmonaut.Row.Stage
import Cosmonaut.Street.Crash
import Cosmonaut.Street.Routing
import Cosmonaut.Street.Initial
import Cosmonaut.Street.LostEdits
import Cosmonaut.Street.Processes
import Cosmonaut.Street.Views
import Cosmonaut.Street.KeepLargest
import Cosmonaut.Osm.Boundary
import Cosmonaut.Osm.Places
import Cosmonaut.Osm.Source
import Cosmonaut.Osm.Writer
import Cosmonaut.Row.Encoding
import Cosmonaut.Osm.Fetch
import Cosmonaut.Plot.Image
import Cosmonaut.Plot.Placement
import Cosmonaut.Runs.UploadReports
import Cosmonaut.Row.UploadSettles
import Cosmonaut.Storage.ToggleHeals
import Cosmonaut.Storage.DeliveredTrack
import Cosmonaut.Runs.Lifecycle
import Cosmonaut.Runs.Deletion
import Cosmonaut.Row.WellFormed
import Cosmonaut.Row.MapPosition
import Cosmonaut.Street.Viewport
import Cosmonaut.Storage.MapLayers
import Cosmonaut.Runs.Workflow
import Cosmonaut.Runs.Retries
import Cosmonaut.Runs.Recovery
